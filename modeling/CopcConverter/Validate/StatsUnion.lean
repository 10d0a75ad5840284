import CopcConverter.Validate.StatsMerge

/-!
# The merged statistics are those of all files

The output describes the extra bytes of the points of all files, so the minimum and the maximum of a
field have to be those over all files.  For a field with a data type, the merge declares a statistic
when some file declares it with a finite value on the first axis, and the slots then decode to the
extreme finite values of the files, as long as the data type of the output holds the values of the
files exactly.

Values pass through 64-bit floating-point numbers, so integers are exact up to `2 ^ 53`, and an
unsigned type holds no negative ones.  The order of the files plays no role, and a merge that fails
leaves the payload as it is.  A signed minimum that is merged into an unsigned field shows that the
condition on the data type cannot be left out.
-/

namespace CopcConverter

/-! ## The two statistics -/

/-- The value of an axis. -/
def Slots.axis {α : Type} (s : Slots α) : Fin 3 → α
  | 0 => s.s₀
  | 1 => s.s₁
  | 2 => s.s₂

@[simp] lemma Slots.axis_map {α β : Type} (f : α → β) (s : Slots α) (a : Fin 3) :
    (s.map f).axis a = f (s.axis a) := by
  fin_cases a <;> rfl

@[simp] lemma Slots.axis_zipWith {α β γ : Type} (f : α → β → γ) (s : Slots α) (t : Slots β)
    (a : Fin 3) : (s.zipWith f t).axis a = f (s.axis a) (t.axis a) := by
  fin_cases a <;> rfl

/-- The minimum or the maximum of a field. -/
inductive Stat where
  | min
  | max

namespace Stat

/-- The bit of the options byte that declares the statistic. -/
def bit : Stat → UInt8
  | min => minBit
  | max => maxBit

/-- Where the slots of the statistic begin in a descriptor. -/
def offset : Stat → ℕ
  | min => 64
  | max => 88

/-- The statistic in the stats of a file. -/
def ofStats : Stat → FieldStats → Slots F64
  | min => FieldStats.min
  | max => FieldStats.max

/-- The statistic in the union so far. -/
def ofMerge : Stat → FieldMerge → Slots (F64 × Bool)
  | min => FieldMerge.min
  | max => FieldMerge.max

/-- A new value replaces the merged one. -/
def better : Stat → F64 → F64 → Bool
  | min => F64.lt
  | max => fun a b => F64.lt b a

/-- The position on the number line, the better the lower. -/
def rank : Stat → F64 → ℤ
  | min => F64.key
  | max => fun v => -v.key

/-- The least element of a set, or the greatest one. -/
def IsExtreme : Stat → Set ℤ → ℤ → Prop
  | min => IsLeast
  | max => IsGreatest

/-- The value that the union starts from. -/
def worst : Stat → F64
  | min => F64.infinity
  | max => F64.negInfinity

lemma better_iff (stat : Stat) {v w : F64} (hv : v.isNaN = false) (hw : w.isNaN = false) :
    stat.better v w = true ↔ stat.rank v < stat.rank w := by
  cases stat with
  | min => exact F64.lt_iff hv hw
  | max => exact (F64.lt_iff hw hv).trans neg_lt_neg_iff.symm

lemma isExtreme_iff (stat : Stat) {S : Set F64} {v : F64} :
    stat.IsExtreme (F64.key '' S) v.key ↔
      (∃ w ∈ S, w.key = v.key) ∧ ∀ w ∈ S, stat.rank v ≤ stat.rank w := by
  cases stat with
  | min => simp [IsExtreme, IsLeast, lowerBounds, rank]
  | max => simp [IsExtreme, IsGreatest, upperBounds, rank]

/-- An extreme position is unique. -/
lemma IsExtreme.unique {stat : Stat} {S : Set ℤ} {i j : ℤ} (hi : stat.IsExtreme S i)
    (hj : stat.IsExtreme S j) : i = j := by
  cases stat with
  | min => exact IsLeast.unique hi hj
  | max => exact IsGreatest.unique hi hj

lemma worst_isNaN (stat : Stat) : stat.worst.isNaN = false := by cases stat <;> decide

/-- A finite value is better than the one that the union starts from. -/
lemma rank_lt_worst (stat : Stat) {v : F64} (hv : v.isFinite = true) :
    stat.rank v < stat.rank stat.worst := by
  have hlt : v.magnitude < 2 ^ 63 := Nat.mod_lt _ (by norm_num)
  have hexp : v.magnitude / 2 ^ 52 ≠ 0x7FF := of_decide_eq_true hv
  have hinf : F64.infinity.key = 0x7FF0000000000000 := by decide
  have hneg : F64.negInfinity.key = -0x7FF0000000000000 := by decide
  have habs := v.natAbs_key
  cases stat with
  | min =>
    change v.key < F64.infinity.key
    omega
  | max =>
    change -v.key < -F64.negInfinity.key
    omega

end Stat

/-! ## Folding one axis -/

section Axis

variable (stat : Stat)

/-- The union of some values is the best of the finite ones among them and the value before. -/
lemma foldl_foldAxis {vs : List F64} {e : F64 × Bool} (he : e.1.isNaN = false) :
    (vs.foldl (foldAxis stat.better) e).2 = (e.2 || vs.any F64.isFinite) ∧
      (vs.foldl (foldAxis stat.better) e).1 ∈ e.1 :: vs.filter F64.isFinite ∧
      ∀ v ∈ e.1 :: vs.filter F64.isFinite,
        stat.rank (vs.foldl (foldAxis stat.better) e).1 ≤ stat.rank v := by
  induction vs generalizing e with
  | nil => simp
  | cons v vs ih =>
    rw [List.foldl_cons, List.any_cons]
    by_cases hv : v.isFinite = true
    · have hnan := F64.isNaN_of_isFinite hv
      have hstep : foldAxis stat.better e v =
          (if stat.better v e.1 then v else e.1, true) := by rw [foldAxis, if_pos hv]
      have hnext : (foldAxis stat.better e v).1.isNaN = false := by
        rw [hstep]
        dsimp only
        split_ifs
        · exact hnan
        · exact he
      have hbest : stat.rank (foldAxis stat.better e v).1 ≤ stat.rank e.1 ∧
          stat.rank (foldAxis stat.better e v).1 ≤ stat.rank v := by
        rw [hstep]
        dsimp only
        split_ifs with hbetter
        · exact ⟨((stat.better_iff hnan he).mp hbetter).le, le_rfl⟩
        · rw [stat.better_iff hnan he, not_lt] at hbetter
          exact ⟨le_rfl, hbetter⟩
      obtain ⟨hfolded, hmem, hle⟩ := ih hnext
      rw [List.filter_cons_of_pos hv]
      refine ⟨?_, ?_, ?_⟩
      · rw [hfolded, hstep, hv, Bool.true_or, Bool.or_true]
      · rcases List.mem_cons.mp hmem with heq | hmem
        · rw [heq, hstep]
          dsimp only
          split_ifs <;> simp
        · exact List.mem_cons_of_mem _ (List.mem_cons_of_mem _ hmem)
      · have hhead := hle _ List.mem_cons_self
        intro w hw
        rcases List.mem_cons.mp hw with rfl | hw
        · exact hhead.trans hbest.1
        rcases List.mem_cons.mp hw with rfl | hw
        · exact hhead.trans hbest.2
        · exact hle w (List.mem_cons_of_mem _ hw)
    · have hstep : foldAxis stat.better e v = e := by rw [foldAxis, if_neg hv]
      rw [hstep, List.filter_cons_of_neg hv, Bool.eq_false_of_not_eq_true hv, Bool.false_or]
      exact ih he

/-! ## Folding the files -/

/-- The values of an axis that the files declare for a field. -/
def declaredValues (files : List ParsedExtraBytes) (fieldIdx : ℕ) (a : Fin 3) : List F64 :=
  (files.filter fun f => (statsAt fieldIdx f).optionsStats &&& stat.bit ≠ 0).map fun f =>
    (stat.ofStats (statsAt fieldIdx f)).axis a

/-- The finite values of an axis that the files declare for a field. -/
def finiteValues (files : List ParsedExtraBytes) (fieldIdx : ℕ) (a : Fin 3) : Set F64 :=
  {v | ∃ f ∈ files, (statsAt fieldIdx f).optionsStats &&& stat.bit ≠ 0 ∧
    (stat.ofStats (statsAt fieldIdx f)).axis a = v ∧ v.isFinite = true}

lemma mem_finiteValues {files : List ParsedExtraBytes} {fieldIdx : ℕ} {a : Fin 3} {v : F64} :
    v ∈ finiteValues stat files fieldIdx a ↔
      v ∈ (declaredValues stat files fieldIdx a).filter F64.isFinite := by
  simp only [finiteValues, declaredValues, Set.mem_ofPred_eq, List.mem_filter, List.mem_map,
    decide_eq_true_eq]
  constructor
  · rintro ⟨f, hf, hdeclared, hv, hfinite⟩
    exact ⟨⟨f, ⟨hf, hdeclared⟩, hv⟩, hfinite⟩
  · rintro ⟨⟨f, ⟨hf, hdeclared⟩, hv⟩, hfinite⟩
    exact ⟨f, hf, hdeclared, hv, hfinite⟩

/-- The order of the files does not matter to their values. -/
lemma finiteValues_perm {files files' : List ParsedExtraBytes} (h : files'.Perm files)
    (fieldIdx : ℕ) : finiteValues stat files' fieldIdx = finiteValues stat files fieldIdx := by
  ext a v
  simp only [finiteValues, Set.mem_ofPred_eq, h.mem_iff]

/-- One file folds in the value that it declares. -/
lemma axis_mergeFile {n fieldIdx : ℕ} {m m' : FieldMerge} {f : ParsedExtraBytes}
    (h : mergeFile n fieldIdx m f = .ok m') (a : Fin 3) :
    (stat.ofMerge m').axis a =
      if (statsAt fieldIdx f).optionsStats &&& stat.bit ≠ 0 then
        foldAxis stat.better ((stat.ofMerge m).axis a) ((stat.ofStats (statsAt fieldIdx f)).axis a)
      else (stat.ofMerge m).axis a := by
  rw [mergeFile] at h
  split_ifs at h with hcount
  obtain rfl := Except.ok.inj h
  have hif : ∀ (c : Prop) [Decidable c] (s : Slots (F64 × Bool)) (t : Slots F64),
      (if c then s.zipWith (foldAxis stat.better) t else s).axis a =
        if c then foldAxis stat.better (s.axis a) (t.axis a) else s.axis a := by
    intro c _ s t
    split_ifs
    · exact Slots.axis_zipWith _ _ _ _
    · rfl
  cases stat with
  | min => exact hif _ _ _
  | max => exact hif _ _ _

/-- All files fold in the values that they declare. -/
lemma axis_foldlM_mergeFile {n fieldIdx : ℕ} {m m' : FieldMerge} {files : List ParsedExtraBytes}
    (h : files.foldlM (mergeFile n fieldIdx) m = .ok m') (a : Fin 3) :
    (stat.ofMerge m').axis a = (declaredValues stat files fieldIdx a).foldl (foldAxis stat.better)
      ((stat.ofMerge m).axis a) := by
  induction files generalizing m with
  | nil =>
    obtain rfl : m = m' := Except.ok.inj h
    rfl
  | cons f files ih =>
    rw [List.foldlM_cons] at h
    cases hf : mergeFile n fieldIdx m f with
    | error e =>
      rw [hf] at h
      cases h
    | ok m₁ =>
      rw [hf] at h
      rw [ih h, axis_mergeFile stat hf]
      unfold declaredValues
      by_cases hdeclared : (statsAt fieldIdx f).optionsStats &&& stat.bit ≠ 0
      · rw [if_pos hdeclared, List.filter_cons_of_pos (by simpa using hdeclared), List.map_cons,
          List.foldl_cons]
      · rw [if_neg hdeclared, List.filter_cons_of_neg (by simpa using hdeclared)]

/-- The union of an axis is the extreme finite value, if there is a finite value. -/
lemma merged_axis {n fieldIdx : ℕ} {m : FieldMerge} {files : List ParsedExtraBytes}
    (h : files.foldlM (mergeFile n fieldIdx) FieldMerge.start = .ok m) (a : Fin 3) :
    (((stat.ofMerge m).axis a).2 = true ↔ (finiteValues stat files fieldIdx a).Nonempty) ∧
      (((stat.ofMerge m).axis a).2 = true →
        ((stat.ofMerge m).axis a).1 ∈ finiteValues stat files fieldIdx a ∧
        stat.IsExtreme (F64.key '' finiteValues stat files fieldIdx a)
          ((stat.ofMerge m).axis a).1.key) := by
  have hstart : (stat.ofMerge FieldMerge.start).axis a = (stat.worst, false) := by
    cases stat <;> fin_cases a <;> rfl
  rw [axis_foldlM_mergeFile stat h, hstart]
  set vs := declaredValues stat files fieldIdx a
  obtain ⟨hfolded, hmem, hle⟩ :=
    @foldl_foldAxis stat vs (stat.worst, false) stat.worst_isNaN
  have hany : vs.any F64.isFinite = true ↔ (finiteValues stat files fieldIdx a).Nonempty := by
    rw [List.any_eq_true]
    constructor
    · rintro ⟨v, hv, hfinite⟩
      exact ⟨v, (mem_finiteValues stat).mpr (List.mem_filter.mpr ⟨hv, hfinite⟩)⟩
    · rintro ⟨v, hv⟩
      exact ⟨v, List.mem_filter.mp ((mem_finiteValues stat).mp hv)⟩
  have hiff : (vs.foldl (foldAxis stat.better) (stat.worst, false)).2 = true ↔
      (finiteValues stat files fieldIdx a).Nonempty := by rw [hfolded, Bool.false_or, hany]
  refine ⟨hiff, fun hseen => ?_⟩
  have hin : (vs.foldl (foldAxis stat.better) (stat.worst, false)).1 ∈
      finiteValues stat files fieldIdx a := by
    rcases List.mem_cons.mp hmem with heq | hmem
    · -- a finite value is better than the start
      obtain ⟨w, hw⟩ := hiff.mp hseen
      have hlt := stat.rank_lt_worst (List.mem_filter.mp ((mem_finiteValues stat).mp hw)).2
      have hwle := hle w (List.mem_cons_of_mem _ ((mem_finiteValues stat).mp hw))
      rw [heq] at hwle
      exact absurd hwle hlt.not_ge
    · exact (mem_finiteValues stat).mpr hmem
  refine ⟨hin, (stat.isExtreme_iff).mpr ⟨⟨_, hin, rfl⟩, fun w hw => ?_⟩⟩
  exact hle w (List.mem_cons_of_mem _ ((mem_finiteValues stat).mp hw))

end Axis

/-! ## Slots -/

/-- The data types whose stat slots have an encoding. -/
def Documented (dataType : UInt8) : Prop := 1 ≤ dataType ∧ dataType ≤ 10

instance : DecidablePred Documented := fun _ => inferInstanceAs (Decidable (_ ∧ _))

/-- A stat slot of the data type holds the value exactly: the slot of an integer type holds integers
up to `2 ^ 53`, and that of an unsigned type none below zero. -/
def HoldsExactly (dataType : UInt8) (v : F64) : Prop :=
  match dataType.toNat with
  | 1 | 3 | 5 | 7 => ∃ n : ℕ, v.IsInt n
  | 2 | 4 | 6 | 8 => ∃ i : ℤ, v.IsInt i
  | 9 | 10 => True
  | _ => False

/-- The encoded slot of a merged axis. -/
def slotOf (dataType : UInt8) (e : F64 × Bool) : UInt64 :=
  if e.2 then (f64ToAnytype dataType e.1).getD 0 else 0

/-- The kinds of data types with an encoding. -/
lemma Documented.cases {dataType : UInt8} (h : Documented dataType) :
    (dataType = 1 ∨ dataType = 3 ∨ dataType = 5 ∨ dataType = 7) ∨
      (dataType = 2 ∨ dataType = 4 ∨ dataType = 6 ∨ dataType = 8) ∨
      dataType = 9 ∨ dataType = 10 := by
  obtain ⟨⟨t⟩⟩ := dataType
  revert h
  unfold Documented
  revert t
  decide +kernel

/-- A slot decodes to the value that was merged. -/
lemma decode_slotOf {dataType : UInt8} (ht : Documented dataType) {e : F64 × Bool}
    (he : e.2 = true → HoldsExactly dataType e.1) :
    ∃ v, anytypeToF64 dataType (slotOf dataType e) = some v ∧
      v.key = if e.2 then e.1.key else 0 := by
  obtain ⟨w, folded⟩ := e
  cases folded with
  | false =>
    simp only [slotOf, Bool.false_eq_true, if_false]
    rcases ht.cases with (rfl | rfl | rfl | rfl) | (rfl | rfl | rfl | rfl) | rfl | rfl <;>
      exact ⟨_, rfl, by decide⟩
  | true =>
    have hw := he rfl
    simp only [slotOf, if_true]
    rcases ht.cases with (rfl | rfl | rfl | rfl) | (rfl | rfl | rfl | rfl) | rfl | rfl
    all_goals first
      | exact ⟨w, rfl, rfl⟩
      | obtain ⟨n, hn⟩ : ∃ n : ℕ, w.IsInt n := hw
        refine ⟨F64.ofNat w.roundToU64.toNat, rfl, ?_⟩
        rw [F64.roundToU64_of_isInt hn, hn.2]
        rfl
      | obtain ⟨i, hi⟩ : ∃ i : ℤ, w.IsInt i := hw
        refine ⟨F64.ofInt w.roundToI64.toInt64.toInt, rfl, ?_⟩
        rw [F64.roundToI64_of_isInt hi, hi.2]

lemma encodeSlots_eq (dataType : UInt8) (merged : Slots (F64 × Bool)) :
    encodeSlots dataType merged = Bytes.u64 (slotOf dataType merged.s₀) ++
      (Bytes.u64 (slotOf dataType merged.s₁) ++ (Bytes.u64 (slotOf dataType merged.s₂) ++ [])) :=
  rfl

/-- Reading after a first part. -/
lemma slotsAt_encodeSlots (dataType : UInt8) (merged : Slots (F64 × Bool)) (a : Fin 3) :
    (slotsAt (encodeSlots dataType merged) 0).axis a = slotOf dataType (merged.axis a) := by
  have hskip : ∀ (n : UInt64) (rest : List UInt8) (off : ℕ),
      Bytes.readU64 (Bytes.u64 n ++ rest) (off + 8) = Bytes.readU64 rest off := by
    intro n rest off
    apply Bytes.readU64_congr
    intro j _
    rw [List.getElem?_append_right (by rw [Bytes.length_u64]; omega), Bytes.length_u64]
    congr 1
    omega
  rw [encodeSlots_eq]
  fin_cases a
  · exact Bytes.readU64_u64_append _ _
  · exact (hskip _ _ 0).trans (Bytes.readU64_u64_append _ _)
  · exact (hskip _ _ 8).trans ((hskip _ _ 0).trans (Bytes.readU64_u64_append _ _))

/-- Slots read the same from texts that have the same bytes there. -/
lemma slotsAt_congr {bs cs : List UInt8} {off off' : ℕ}
    (h : ∀ j < 24, bs[off + j]? = cs[off' + j]?) : slotsAt bs off = slotsAt cs off' := by
  have hread : ∀ k ≤ 16, Bytes.readU64 bs (off + k) = Bytes.readU64 cs (off' + k) := by
    intro k hk
    apply Bytes.readU64_congr
    intro j hj
    rw [Nat.add_assoc, Nat.add_assoc]
    exact h (k + j) (by omega)
  rw [slotsAt, slotsAt, hread 8 (by omega), hread 16 (by omega)]
  exact congrArg (Slots.mk · _ _) (hread 0 (by omega))

/-! ## The patched descriptor -/

section Descriptor

variable {d : List UInt8} {m : FieldMerge}

/-- The slots of a patched descriptor. -/
lemma slotsAt_patchDescriptor (stat : Stat) (hlen : d.length = descriptorSize) :
    slotsAt (patchDescriptor d m) stat.offset =
      if (stat.ofMerge m).s₀.2 = true then
        slotsAt (encodeSlots (descriptorType d) (stat.ofMerge m)) 0
      else slotsAt d stat.offset := by
  have hget := getElem?_patchDescriptor hlen m
  by_cases hseen : (stat.ofMerge m).s₀.2 = true
  · rw [if_pos hseen]
    apply slotsAt_congr
    intro j hj
    rw [hget]
    cases stat with
    | min =>
      rw [if_neg (by simp only [Stat.offset]; omega),
        if_pos ⟨hseen, by simp only [Stat.offset]; omega, by simp only [Stat.offset]; omega⟩]
      simp [Stat.offset, Stat.ofMerge]
    | max =>
      rw [if_neg (by simp only [Stat.offset]; omega), if_neg (by simp only [Stat.offset]; omega),
        if_pos ⟨hseen, by simp only [Stat.offset]; omega, by simp only [Stat.offset]; omega⟩]
      simp [Stat.offset, Stat.ofMerge]
  · rw [if_neg hseen]
    apply slotsAt_congr
    intro j hj
    rw [hget]
    cases stat with
    | min =>
      rw [if_neg (by simp only [Stat.offset]; omega), if_neg (fun h => hseen h.1),
        if_neg (by simp only [Stat.offset]; omega)]
    | max =>
      rw [if_neg (by simp only [Stat.offset]; omega), if_neg (by simp only [Stat.offset]; omega),
        if_neg (fun h => hseen h.1)]

lemma descriptorOptions_patchDescriptor (hlen : d.length = descriptorSize) :
    descriptorOptions (patchDescriptor d m) = mergedOptions (descriptorOptions d) m := by
  rw [descriptorOptions, List.getD_eq_getElem?_getD, getElem?_patchDescriptor hlen, if_pos rfl,
    Option.getD_some]

lemma descriptorType_patchDescriptor (hlen : d.length = descriptorSize) :
    descriptorType (patchDescriptor d m) = descriptorType d := by
  rw [descriptorType, descriptorType, List.getD_eq_getElem?_getD, List.getD_eq_getElem?_getD,
    getElem?_patchDescriptor hlen, if_neg (by omega), if_neg (by omega), if_neg (by omega)]

/-- The bits of the merged options byte. -/
lemma mergedOptions_bits (options : UInt8) (m : FieldMerge) :
    mergedOptions options m &&& (scaleBit ||| offsetBit) = options &&& (scaleBit ||| offsetBit) ∧
      (mergedOptions options m &&& noDataBit ≠ 0 ↔ m.anyNoData = true) ∧
      (mergedOptions options m &&& minBit ≠ 0 ↔ m.min.s₀.2 = true) ∧
      (mergedOptions options m &&& maxBit ≠ 0 ↔ m.max.s₀.2 = true) := by
  unfold mergedOptions
  generalize m.anyNoData = a, m.min.s₀.2 = b, m.max.s₀.2 = c
  obtain ⟨⟨o⟩⟩ := options
  revert o a b c
  decide +kernel

lemma mergedOptions_bit (stat : Stat) (options : UInt8) (m : FieldMerge) :
    mergedOptions options m &&& stat.bit ≠ 0 ↔ (stat.ofMerge m).s₀.2 = true := by
  obtain ⟨-, -, hmin, hmax⟩ := mergedOptions_bits options m
  cases stat with
  | min => exact hmin
  | max => exact hmax

end Descriptor

/-! ## What a merged descriptor says -/

/-- Nothing but the stat bits and the stat slots of a descriptor has changed. -/
structure SameStructure (d d' : List UInt8) : Prop where
  options : descriptorOptions d' &&& (scaleBit ||| offsetBit) =
    descriptorOptions d &&& (scaleBit ||| offsetBit)
  bytes : ∀ j : ℕ, j ≠ 3 → ¬ (64 ≤ j ∧ j < 112) → d'[j]? = d[j]?

/-- A descriptor declares a statistic when some file has a finite value on the first axis, and then
the slot of every axis decodes to the extreme finite value of the files, or to zero without one. -/
structure StatUnion (stat : Stat) (files : List ParsedExtraBytes) (fieldIdx : ℕ)
    (d : List UInt8) : Prop where
  declared : descriptorOptions d &&& stat.bit ≠ 0 ↔ (finiteValues stat files fieldIdx 0).Nonempty
  slots : descriptorOptions d &&& stat.bit ≠ 0 → ∀ a : Fin 3, ∃ v,
    anytypeToF64 (descriptorType d) ((slotsAt d stat.offset).axis a) = some v ∧
      ((finiteValues stat files fieldIdx a).Nonempty →
        stat.IsExtreme (F64.key '' finiteValues stat files fieldIdx a) v.key) ∧
      (finiteValues stat files fieldIdx a = ∅ → v.key = 0)

/-- Two descriptors of one type declare the same statistics with the same values. -/
structure SameDecoded (d d' : List UInt8) : Prop where
  options : descriptorOptions d = descriptorOptions d'
  slots : ∀ (stat : Stat) (a : Fin 3),
    (anytypeToF64 (descriptorType d) ((slotsAt d stat.offset).axis a)).map F64.key =
      (anytypeToF64 (descriptorType d') ((slotsAt d' stat.offset).axis a)).map F64.key

/-- The slots of the data type hold all values of the files for the field. -/
def HoldsStats (dataType : UInt8) (files : List ParsedExtraBytes) (fieldIdx : ℕ) : Prop :=
  ∀ (stat : Stat) (a : Fin 3), ∀ v ∈ finiteValues stat files fieldIdx a, HoldsExactly dataType v

section Patch

variable {d : List UInt8} {m m' : FieldMerge} {n fieldIdx : ℕ}
  {files files' : List ParsedExtraBytes}

lemma sameStructure_patchDescriptor (hlen : d.length = descriptorSize) :
    SameStructure d (patchDescriptor d m) := by
  refine ⟨?_, fun j hj hslots => ?_⟩
  · rw [descriptorOptions_patchDescriptor hlen]
    exact (mergedOptions_bits _ m).1
  · rw [getElem?_patchDescriptor hlen, if_neg hj, if_neg (by omega), if_neg (by omega)]

/-- A patched descriptor has the union of the stats of the files. -/
lemma statUnion_patchDescriptor (hlen : d.length = descriptorSize)
    (hm : files.foldlM (mergeFile n fieldIdx) FieldMerge.start = .ok m)
    (ht : Documented (descriptorType d)) (hholds : HoldsStats (descriptorType d) files fieldIdx)
    (stat : Stat) : StatUnion stat files fieldIdx (patchDescriptor d m) := by
  have hbit : descriptorOptions (patchDescriptor d m) &&& stat.bit ≠ 0 ↔
      (stat.ofMerge m).s₀.2 = true := by
    rw [descriptorOptions_patchDescriptor hlen]
    exact mergedOptions_bit stat _ m
  refine ⟨hbit.trans (merged_axis stat hm 0).1, fun hdeclared a => ?_⟩
  obtain ⟨hfolded, hextreme⟩ := merged_axis stat hm a
  obtain ⟨v, hv, hkey⟩ := decode_slotOf ht fun he => hholds stat a _ (hextreme he).1
  refine ⟨v, ?_, fun hne => ?_, fun hempty => ?_⟩
  · rw [slotsAt_patchDescriptor stat hlen, if_pos (hbit.mp hdeclared), slotsAt_encodeSlots,
      descriptorType_patchDescriptor hlen]
    exact hv
  · rw [hkey, if_pos (hfolded.mpr hne)]
    exact (hextreme (hfolded.mpr hne)).2
  · rw [hkey, if_neg fun h => (hfolded.mp h).ne_empty hempty]

/-- Files in another order patch a descriptor to the same values. -/
lemma sameDecoded_patchDescriptor (hlen : d.length = descriptorSize) (hperm : files'.Perm files)
    (hm : files.foldlM (mergeFile n fieldIdx) FieldMerge.start = .ok m)
    (hm' : files'.foldlM (mergeFile n fieldIdx) FieldMerge.start = .ok m')
    (hno : m'.anyNoData = m.anyNoData)
    (ht : Documented (descriptorType d)) (hholds : HoldsStats (descriptorType d) files fieldIdx) :
    SameDecoded (patchDescriptor d m) (patchDescriptor d m') := by
  have hvalues : ∀ stat a, finiteValues stat files' fieldIdx a =
      finiteValues stat files fieldIdx a := fun stat a => by rw [finiteValues_perm stat hperm]
  have hholds' : HoldsStats (descriptorType d) files' fieldIdx := fun stat a v hv =>
    hholds stat a v (hvalues stat a ▸ hv)
  have hseen : ∀ stat : Stat, (stat.ofMerge m').s₀.2 = (stat.ofMerge m).s₀.2 := by
    intro stat
    have h := (merged_axis stat hm 0).1
    have h' := (merged_axis stat hm' 0).1
    rw [hvalues stat 0] at h'
    exact Bool.eq_iff_iff.mpr (h'.trans h.symm)
  refine ⟨?_, fun stat a => ?_⟩
  · have hmin : m'.min.s₀.2 = m.min.s₀.2 := hseen .min
    have hmax : m'.max.s₀.2 = m.max.s₀.2 := hseen .max
    rw [descriptorOptions_patchDescriptor hlen, descriptorOptions_patchDescriptor hlen,
      mergedOptions, mergedOptions, hno, hmin, hmax]
  · have hunion := statUnion_patchDescriptor hlen hm ht hholds stat
    have hunion' := statUnion_patchDescriptor hlen hm' ht hholds' stat
    by_cases hdeclared : (stat.ofMerge m).s₀.2 = true
    · obtain ⟨v, hv, hext, hzero⟩ := hunion.slots (hunion.declared.mpr
        ((merged_axis stat hm 0).1.mp hdeclared)) a
      obtain ⟨v', hv', hext', hzero'⟩ := hunion'.slots (hunion'.declared.mpr
        ((merged_axis stat hm' 0).1.mp ((hseen stat).trans hdeclared))) a
      rw [hv, hv', Option.map_some, Option.map_some]
      rw [hvalues] at hext' hzero'
      rcases (finiteValues stat files fieldIdx a).eq_empty_or_nonempty with hempty | hne
      · rw [hzero hempty, hzero' hempty]
      · rw [(hext hne).unique (hext' hne)]
    · rw [slotsAt_patchDescriptor stat hlen, slotsAt_patchDescriptor stat hlen, hseen stat,
        if_neg hdeclared, if_neg hdeclared, descriptorType_patchDescriptor hlen,
        descriptorType_patchDescriptor hlen]

end Patch

/-! ## The merge -/

/-- The merge succeeds: the payload is made of descriptors, and every file has a field for each. -/
def Mergeable (canonical : List UInt8) (files : List ParsedExtraBytes) : Prop :=
  canonical.length % descriptorSize = 0 ∧ (canonical.length / descriptorSize = 0 ∨
    ∀ f ∈ files, f.fields.length = canonical.length / descriptorSize)

/-- A file with another number of fields fails the fold. -/
lemma foldlM_mergeFile_error {n : ℕ} {files : List ParsedExtraBytes}
    (h : ∃ f ∈ files, f.fields.length ≠ n) (fieldIdx : ℕ) (m : FieldMerge) :
    ∃ e, files.foldlM (mergeFile n fieldIdx) m = .error e := by
  induction files generalizing m with
  | nil =>
    obtain ⟨f, hf, -⟩ := h
    cases hf
  | cons f files ih =>
    rw [List.foldlM_cons]
    cases hstep : mergeFile n fieldIdx m f with
    | error e => exact ⟨e, rfl⟩
    | ok m' =>
      have hf : f.fields.length = n := by
        by_contra hne
        rw [mergeFile, if_pos hne] at hstep
        cases hstep
      obtain ⟨g, hg, hne⟩ := h
      rcases List.mem_cons.mp hg with rfl | hg
      · exact absurd hf hne
      · exact ih ⟨g, hg, hne⟩ m'

/-- A merge that fails does so before it changes the payload. -/
lemma merge_error {canonical : List UInt8} {files : List ParsedExtraBytes} (hfiles : files ≠ [])
    (h : ¬ Mergeable canonical files) :
    ∃ e, mergeStatsIntoCanonical canonical files = (.error e, canonical) := by
  rw [mergeStatsIntoCanonical, if_neg (by simpa using hfiles)]
  by_cases hlen : canonical.length % descriptorSize = 0
  · rw [if_neg (by simpa using hlen)]
    simp only [Mergeable, hlen, true_and, not_or, not_forall] at h
    obtain ⟨hpos, f, hf, hne⟩ := h
    obtain ⟨n, hn⟩ := Nat.exists_eq_succ_of_ne_zero hpos
    obtain ⟨e, he⟩ := foldlM_mergeFile_error ⟨f, hf, hne⟩ 0 FieldMerge.start
    refine ⟨e, ?_⟩
    -- the first field already looks at every file
    have hrange : List.range (canonical.length / descriptorSize) =
        0 :: (List.range n).map Nat.succ := by rw [hn, List.range_succ_eq_map]
    have hfield : mergeField files (canonical.length / descriptorSize) canonical 0 = .error e := by
      rw [mergeField, he]
      rfl
    simp only
    rw [hrange, mergeFields, hfield]
  · rw [if_pos hlen]
    exact ⟨_, rfl⟩

/-- A merge that succeeds patches every descriptor. -/
lemma merge_ok {canonical : List UInt8} {files : List ParsedExtraBytes} (hfiles : files ≠ [])
    (h : Mergeable canonical files) :
    (mergeStatsIntoCanonical canonical files).1 = .ok () ∧
      (mergeStatsIntoCanonical canonical files).2.length = canonical.length ∧
      ∀ i < canonical.length / descriptorSize, (descriptorAt canonical i).length = descriptorSize ∧
        ∃ m, files.foldlM (mergeFile (canonical.length / descriptorSize) i) FieldMerge.start =
            .ok m ∧ m.anyNoData = noDataSeen files i ∧
          descriptorAt (mergeStatsIntoCanonical canonical files).2 i =
            patchDescriptor (descriptorAt canonical i) m := by
  obtain ⟨hlen, hcount⟩ := h
  have hmul : canonical.length = canonical.length / descriptorSize * descriptorSize :=
    (Nat.div_mul_cancel (Nat.dvd_of_mod_eq_zero hlen)).symm
  have hmerge : mergeStatsIntoCanonical canonical files = mergeFields files
      (canonical.length / descriptorSize) (List.range (canonical.length / descriptorSize))
      canonical := by
    rw [mergeStatsIntoCanonical, if_neg (by simpa using hfiles), if_neg (by simpa using hlen)]
  rw [hmerge]
  rcases hcount with hzero | hcount
  · rw [hzero]
    exact ⟨rfl, rfl, fun i hi => absurd hi (Nat.not_lt_zero i)⟩
  · obtain ⟨hok, hlength, -, hpatch⟩ := mergeFields_spec hcount List.nodup_range
      (fun i hi => List.mem_range.mp hi) hmul
    refine ⟨hok, hlength, fun i hi => ⟨length_descriptorAt hmul hi, ?_⟩⟩
    obtain ⟨m, hm, heq⟩ := hpatch i (List.mem_range.mpr hi)
    obtain ⟨m', hm', hno, -, -⟩ := foldlM_mergeFile hcount i FieldMerge.start
    obtain rfl : m = m' := Except.ok.inj (hm.symm.trans hm')
    exact ⟨m, hm, hno, heq⟩

lemma noDataSeen_iff (files : List ParsedExtraBytes) (fieldIdx : ℕ) :
    noDataSeen files fieldIdx = true ↔
      ∃ f ∈ files, (statsAt fieldIdx f).optionsStats &&& noDataBit ≠ 0 := by
  simp [noDataSeen]

/-- **The merged statistics are those of all files**: a merge that fails leaves the payload as it
is; one that succeeds leaves all of it but the stat bits and the stat slots, declares for every
field with a data type what some file declares, with the extreme finite values of the files,
provided that the data type holds them; and the order of the files does not matter. -/
theorem mergeStatsIntoCanonical_union (canonical : List UInt8) {files : List ParsedExtraBytes}
    (hfiles : files ≠ []) :
    (∀ e, (mergeStatsIntoCanonical canonical files).1 = .error e →
      (mergeStatsIntoCanonical canonical files).2 = canonical) ∧
    ((mergeStatsIntoCanonical canonical files).1 = .ok () →
      (mergeStatsIntoCanonical canonical files).2.length = canonical.length ∧
      ∀ i < canonical.length / descriptorSize,
        SameStructure (descriptorAt canonical i)
          (descriptorAt (mergeStatsIntoCanonical canonical files).2 i) ∧
        (Documented (descriptorType (descriptorAt canonical i)) →
          HoldsStats (descriptorType (descriptorAt canonical i)) files i →
          (descriptorOptions (descriptorAt (mergeStatsIntoCanonical canonical files).2 i) &&&
            noDataBit ≠ 0 ↔ ∃ f ∈ files, (statsAt i f).optionsStats &&& noDataBit ≠ 0) ∧
          ∀ stat : Stat, StatUnion stat files i
            (descriptorAt (mergeStatsIntoCanonical canonical files).2 i))) ∧
    ∀ files' : List ParsedExtraBytes, files'.Perm files →
      ((mergeStatsIntoCanonical canonical files').1 = .ok () ↔
        (mergeStatsIntoCanonical canonical files).1 = .ok ()) ∧
      ∀ i < canonical.length / descriptorSize,
        Documented (descriptorType (descriptorAt canonical i)) →
        HoldsStats (descriptorType (descriptorAt canonical i)) files i →
        SameDecoded (descriptorAt (mergeStatsIntoCanonical canonical files).2 i)
          (descriptorAt (mergeStatsIntoCanonical canonical files').2 i) := by
  have hfiles' : ∀ files' : List ParsedExtraBytes, files'.Perm files → files' ≠ [] :=
    fun files' hperm hnil => hfiles (List.nil_perm.mp (hnil ▸ hperm))
  have hmergeable : ∀ files' : List ParsedExtraBytes, files'.Perm files →
      (Mergeable canonical files' ↔ Mergeable canonical files) := by
    intro files' hperm
    simp only [Mergeable, hperm.mem_iff]
  by_cases h : Mergeable canonical files
  · obtain ⟨hok, hlength, hpatch⟩ := merge_ok hfiles h
    refine ⟨fun e he => ?_, fun _ => ⟨hlength, fun i hi => ?_⟩, fun files' hperm => ?_⟩
    · rw [hok] at he
      cases he
    · obtain ⟨hlen, m, hm, hno, heq⟩ := hpatch i hi
      rw [heq]
      refine ⟨sameStructure_patchDescriptor hlen, fun ht hholds => ⟨?_, fun stat => ?_⟩⟩
      · rw [descriptorOptions_patchDescriptor hlen, ← noDataSeen_iff, ← hno]
        exact (mergedOptions_bits _ m).2.1
      · exact statUnion_patchDescriptor hlen hm ht hholds stat
    · obtain ⟨hok', -, hpatch'⟩ := merge_ok (hfiles' files' hperm) ((hmergeable files' hperm).mpr h)
      refine ⟨iff_of_true hok' hok, fun i hi ht hholds => ?_⟩
      obtain ⟨hlen, m, hm, hno, heq⟩ := hpatch i hi
      obtain ⟨-, m', hm', hno', heq'⟩ := hpatch' i hi
      rw [heq, heq']
      have hseen : noDataSeen files' i = noDataSeen files i := hperm.any_eq
      exact sameDecoded_patchDescriptor hlen hperm hm hm' (by rw [hno', hno, hseen]) ht hholds
  · obtain ⟨e, he⟩ := merge_error hfiles h
    refine ⟨fun _ _ => by rw [he], fun hok => ?_, fun files' hperm => ?_⟩
    · rw [he] at hok
      cases hok
    · obtain ⟨e', he'⟩ := merge_error (hfiles' files' hperm) fun h' =>
        h ((hmergeable files' hperm).mp h')
      rw [he, he']
      exact ⟨iff_of_false (by rintro ⟨⟩) (by rintro ⟨⟩), fun i _ _ _ => ⟨rfl, fun _ _ => rfl⟩⟩

/-! ## Records of one type -/

/-- The value of a slot is one that a 64-bit floating-point number holds exactly. -/
def ExactSlot (dataType : UInt8) (raw : UInt64) : Prop :=
  match dataType.toNat with
  | 1 | 3 | 5 | 7 => raw.toNat ≤ 2 ^ 53
  | 2 | 4 | 6 | 8 => raw.toInt64.toInt.natAbs ≤ 2 ^ 53
  | _ => True

instance (dataType : UInt8) (raw : UInt64) : Decidable (ExactSlot dataType raw) := by
  unfold ExactSlot
  split <;> infer_instance

/-- A slot of a data type decodes to a value that the data type holds. -/
lemma holdsExactly_of_decode {dataType : UInt8} (ht : Documented dataType) {raw : UInt64} {v : F64}
    (h : anytypeToF64 dataType raw = some v) (hraw : ExactSlot dataType raw) :
    HoldsExactly dataType v := by
  rcases ht.cases with (rfl | rfl | rfl | rfl) | (rfl | rfl | rfl | rfl) | rfl | rfl
  all_goals first
    | exact trivial
    | obtain rfl : F64.ofNat raw.toNat = v := Option.some.inj h
      exact ⟨raw.toNat, hraw, rfl⟩
    | obtain rfl : F64.ofInt raw.toInt64.toInt = v := Option.some.inj h
      exact ⟨raw.toInt64.toInt, hraw, rfl⟩

/-- The stats of a field are those of its descriptor. -/
lemma statsAt_of_parse {payload : List UInt8} {p : ParsedExtraBytes}
    (h : ParsedExtraBytes.parse payload = .ok p) {i : ℕ}
    (hi : i < payload.length / descriptorSize) :
    statsAt i p = parseStats (descriptorAt payload i) := by
  rw [ParsedExtraBytes.parse] at h
  split_ifs at h
  obtain rfl := Except.ok.inj h
  simp [statsAt, descriptors, descriptorAt, hi]

/-- **Files whose fields have the data type of the output** have values that it holds. -/
lemma holdsStats_of_parse {dataType : UInt8} (ht : Documented dataType)
    {files : List ParsedExtraBytes} {i : ℕ}
    (h : ∀ f ∈ files, ∃ payload, ParsedExtraBytes.parse payload = .ok f ∧
      i < payload.length / descriptorSize ∧ descriptorType (descriptorAt payload i) = dataType ∧
      ∀ (stat : Stat) (a : Fin 3),
        ExactSlot dataType ((slotsAt (descriptorAt payload i) stat.offset).axis a)) :
    HoldsStats dataType files i := by
  rintro stat a v ⟨f, hf, -, rfl, -⟩
  obtain ⟨payload, hparse, hi, rfl, hexact⟩ := h f hf
  obtain ⟨w, hw⟩ : ∃ w, anytypeToF64 (descriptorType (descriptorAt payload i))
      ((slotsAt (descriptorAt payload i) stat.offset).axis a) = some w := by
    rcases ht.cases with (h | h | h | h) | (h | h | h | h) | h | h <;> rw [h] <;> exact ⟨_, rfl⟩
  have hvalue : (stat.ofStats (parseStats (descriptorAt payload i))).axis a = w := by
    cases stat <;> simp only [Stat.ofStats, parseStats, Slots.axis_map] <;>
      exact (congrArg (Option.getD · F64.nan) hw)
  rw [statsAt_of_parse hparse hi, hvalue]
  exact holdsExactly_of_decode ht hw (hexact stat a)

/-! ## Two files -/

/-- A descriptor with stats on the first axis. -/
def statDescriptor (dataType options : UInt8) (min max : UInt64) : List UInt8 :=
  [0, 0, dataType, options] ++ List.replicate 60 0 ++ Bytes.u64 min ++ List.replicate 16 0 ++
    Bytes.u64 max ++ List.replicate 96 0

/-- The parsed record with that descriptor alone. -/
def statRecord (dataType options : UInt8) (min max : UInt64) : ParsedExtraBytes where
  fields := [parseSchema (statDescriptor dataType options min max)]
  stats := [parseStats (statDescriptor dataType options min max)]

lemma parse_statDescriptor (dataType options : UInt8) (min max : UInt64) :
    ParsedExtraBytes.parse (statDescriptor dataType options min max) =
      .ok (statRecord dataType options min max) := by
  have hlen : (statDescriptor dataType options min max).length = descriptorSize := by
    simp only [statDescriptor, List.length_append, List.length_replicate, Bytes.length_u64,
      List.length_cons, List.length_nil, descriptorSize]
  have hblock : descriptors (statDescriptor dataType options min max) =
      [statDescriptor dataType options min max] := by
    rw [descriptors, hlen, Nat.div_self (by decide), List.range_one, List.map_singleton,
      Nat.zero_mul, List.drop_zero, List.take_of_length_le hlen.le]
  rw [ParsedExtraBytes.parse, if_neg (by rw [hlen]; decide), hblock]
  rfl

/-- The files of two surveys with 16-bit intensities, one of them without a maximum. -/
def surveyFiles : List ParsedExtraBytes :=
  [statRecord 4 6 (UInt64.ofNat (2 ^ 64 - 5000)) 15000,
    statRecord 4 2 (UInt64.ofNat (2 ^ 64 - 7)) 0]

/-- The merge of the two declares both statistics. -/
theorem mergeStatsIntoCanonical_union_survey :
    StatUnion .min surveyFiles 0 (descriptorAt
      (mergeStatsIntoCanonical (statDescriptor 4 0 0 0) surveyFiles).2 0) ∧
    StatUnion .max surveyFiles 0 (descriptorAt
      (mergeStatsIntoCanonical (statDescriptor 4 0 0 0) surveyFiles).2 0) := by
  have hholds : HoldsStats 4 surveyFiles 0 := by
    apply holdsStats_of_parse (by decide)
    intro f hf
    rcases List.mem_cons.mp hf with rfl | hf
    · exact ⟨_, parse_statDescriptor _ _ _ _, by decide +kernel, by decide +kernel, by
        intro stat; cases stat <;> decide +kernel⟩
    · obtain rfl := List.mem_singleton.mp hf
      exact ⟨_, parse_statDescriptor _ _ _ _, by decide +kernel, by decide +kernel, by
        intro stat; cases stat <;> decide +kernel⟩
  have hunion := ((@mergeStatsIntoCanonical_union (statDescriptor 4 0 0 0) surveyFiles
    (by simp [surveyFiles])).2.1 (by decide +kernel)).2 0 (by decide +kernel)
  have htype : descriptorType (descriptorAt (statDescriptor 4 0 0 0) 0) = 4 := by decide +kernel
  rw [htype] at hunion
  obtain ⟨-, hstat⟩ := hunion.2 (by decide) hholds
  exact ⟨hstat .min, hstat .max⟩

/-- A file with an 8-bit field whose minimum is negative. -/
def signedFile : ParsedExtraBytes := statRecord 2 2 (UInt64.ofNat (2 ^ 64 - 5)) 0

/-- The output of the merge of that file into a record with an unsigned field. -/
def unsignedOutput : Except String Unit × List UInt8 :=
  mergeStatsIntoCanonical (statDescriptor 1 0 0 0) [signedFile]

/-- **A negative minimum is lost in an unsigned field**: the file has it in a field of a signed
type, the output has the field as an unsigned one, and its slot decodes to zero. -/
theorem signed_stat_lost :
    ParsedExtraBytes.parse (statDescriptor 2 2 (UInt64.ofNat (2 ^ 64 - 5)) 0) = .ok signedFile ∧
    HoldsStats 2 [signedFile] 0 ∧ F64.ofInt (-5) ∈ finiteValues .min [signedFile] 0 0 ∧
    descriptorType (descriptorAt (statDescriptor 1 0 0 0) 0) = 1 ∧ unsignedOutput.1 = .ok () ∧
    ¬ StatUnion .min [signedFile] 0 (descriptorAt unsignedOutput.2 0) := by
  have hmem : F64.ofInt (-5) ∈ finiteValues .min [signedFile] 0 0 :=
    ⟨_, List.mem_singleton_self _, by decide +kernel, by decide +kernel, by decide +kernel⟩
  have hholds : HoldsStats 2 [signedFile] 0 := by
    apply holdsStats_of_parse (by decide)
    intro f hf
    obtain rfl := List.mem_singleton.mp hf
    exact ⟨_, parse_statDescriptor _ _ _ _, by decide +kernel, by decide +kernel, by
      intro stat; cases stat <;> decide +kernel⟩
  refine ⟨parse_statDescriptor _ _ _ _, hholds, hmem, by decide +kernel, by decide +kernel,
    fun h => ?_⟩
  obtain ⟨v, hv, hext, -⟩ := h.slots (by decide +kernel) 0
  have hzero : anytypeToF64 (descriptorType (descriptorAt unsignedOutput.2 0))
      ((slotsAt (descriptorAt unsignedOutput.2 0) 64).axis 0) = some (F64.ofNat 0) := by
    decide +kernel
  obtain rfl : F64.ofNat 0 = v := Option.some.inj (hzero.symm.trans hv)
  have hle : (F64.ofNat 0).key ≤ (F64.ofInt (-5)).key := (hext ⟨_, hmem⟩).2 ⟨_, hmem, rfl⟩
  exact absurd hle (by decide +kernel)

end CopcConverter
