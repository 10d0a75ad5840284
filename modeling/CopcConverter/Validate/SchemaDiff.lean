import CopcConverter.Validate.ExtraBytesAgreement

/-!
# The two ways to compare schemas

Two Extra Bytes schemas are compared by the bytes that are hashed, which decides whether a file is
accepted, and again field by field, to explain a rejection.  An explanation without any difference
would be a strange one, and so would be a difference between equal schemas.

The hashed bytes determine the fields: names and descriptions are closed by a byte that they cannot
contain, and everything else has a fixed width.  The comparison by fields takes scales and offsets
for numbers: it sees no difference between the two zeros, and it sees one between a NaN and itself.
Elsewhere the two comparisons agree, and there is an exact condition: schemas with the same fields
are numeric, and no difference is one between two zeros alone.
-/

/-! ## Numbers and their bits -/

namespace F64

/-- The number, with the sign of a zero taken away. -/
def unsignZero (a : F64) : F64 := if a.magnitude = 0 then ⟨0⟩ else a

/-- Two numbers are at one position when they differ at most in the sign of a zero. -/
lemma key_eq_iff {a b : F64} : a.key = b.key ↔ a.unsignZero = b.unsignZero := by
  have hsign : ∀ c : F64, c.key =
      if 2 ^ 63 ≤ c.bits.toNat then -(c.magnitude : ℤ) else c.magnitude :=
    fun c => if_congr decide_eq_true_iff rfl rfl
  have hparts : ∀ c : F64, c.bits.toNat < 2 ^ 64 ∧ c.magnitude = c.bits.toNat % 2 ^ 63 :=
    fun c => ⟨c.bits.toNat_lt, rfl⟩
  have hbits : ∀ c d : F64, c = d ↔ c.bits.toNat = d.bits.toNat := fun c d => by
    rw [UInt64.toNat_inj]
    cases c
    cases d
    exact F64.mk.injEq _ _ ▸ Iff.rfl
  obtain ⟨ha, hma⟩ := hparts a
  obtain ⟨hb, hmb⟩ := hparts b
  rw [hsign, hsign, unsignZero, unsignZero]
  by_cases hza : a.magnitude = 0
  · by_cases hzb : b.magnitude = 0
    · rw [if_pos hza, if_pos hzb, hza, hzb]
      simp
    · rw [if_pos hza, if_neg hzb, hbits, hza]
      have hzero : (⟨0⟩ : F64).bits.toNat = 0 := rfl
      rw [hzero]
      split_ifs <;> omega
  · by_cases hzb : b.magnitude = 0
    · rw [if_neg hza, if_pos hzb, hbits, hzb]
      have hzero : (⟨0⟩ : F64).bits.toNat = 0 := rfl
      rw [hzero]
      split_ifs <;> omega
    · rw [if_neg hza, if_neg hzb, hbits]
      split_ifs <;> omega

/-- Numbers at one position are both NaN or neither is. -/
lemma isNaN_eq_of_key {a b : F64} (h : a.key = b.key) : a.isNaN = b.isNaN := by
  have hmagnitude : a.magnitude = b.magnitude := by rw [← natAbs_key, ← natAbs_key, h]
  rw [isNaN, isNaN, exponent, exponent, fraction, fraction, hmagnitude]

/-- Numbers are equal when they are not NaN and differ at most in the sign of a zero. -/
lemma eq_iff {a b : F64} :
    F64.eq a b = true ↔ a.isNaN = false ∧ a.unsignZero = b.unsignZero := by
  rw [F64.eq, ← key_eq_iff]
  constructor
  · intro h
    obtain ⟨hnan, hkey⟩ := Bool.and_eq_true_iff.mp h
    obtain ⟨ha, -⟩ := Bool.and_eq_true_iff.mp hnan
    exact ⟨Bool.not_eq_true' _ ▸ ha, of_decide_eq_true hkey⟩
  · rintro ⟨ha, hkey⟩
    rw [← isNaN_eq_of_key hkey, ha, hkey]
    simp

end F64

namespace CopcConverter

variable {env : Externals}

/-! ## One field -/

/-- The field, with the signs of zeros taken away. -/
def FieldSchema.unsigned (f : FieldSchema) : FieldSchema :=
  { f with scale := f.scale.map F64.unsignZero, offset := f.offset.map F64.unsignZero }

/-- No scale and no offset is NaN. -/
def FieldSchema.Numeric (f : FieldSchema) : Prop :=
  (∀ v ∈ f.scale.toList, v.isNaN = false) ∧ ∀ v ∈ f.offset.toList, v.isNaN = false

instance (f : FieldSchema) : Decidable f.Numeric := inferInstanceAs (Decidable (_ ∧ _))

/-- Slots are equal as arrays of numbers when none is NaN and they differ at most in the signs of
zeros. -/
lemma slotsNe_eq_false_iff {s t : Slots F64} : slotsNe s t = false ↔
    (∀ v ∈ s.toList, v.isNaN = false) ∧ s.map F64.unsignZero = t.map F64.unsignZero := by
  obtain ⟨a, b, c⟩ := s
  obtain ⟨a', b', c'⟩ := t
  rw [slotsNe, Bool.not_eq_false']
  simp only [Slots.zipWith, Slots.toList, Slots.map, List.all_cons, List.all_nil, id,
    Bool.and_true, Bool.and_eq_true, F64.eq_iff, List.forall_mem_cons, List.not_mem_nil,
    Slots.mk.injEq]
  tauto

/-- A text that is given for a difference only. -/
lemma ite_singleton_eq_nil {P : Prop} [Decidable P] (s : String) :
    (if P then [s] else []) = [] ↔ ¬ P := by
  split_ifs with h <;> simp [h]

/-- No difference of a field is described when it is numeric and the fields differ at most in the
signs of zeros. -/
lemma diffField_eq_nil_iff (i : ℕ) {f g : FieldSchema} :
    diffField env i f g = [] ↔ f.Numeric ∧ f.unsigned = g.unsigned := by
  obtain ⟨t₁, n₁, d₁, o₁, sc₁, of₁, nd₁⟩ := f
  obtain ⟨t₂, n₂, d₂, o₂, sc₂, of₂, nd₂⟩ := g
  unfold diffField
  simp only [List.append_eq_nil_iff, ite_singleton_eq_nil, not_not, Bool.not_eq_true,
    slotsNe_eq_false_iff, FieldSchema.Numeric, FieldSchema.unsigned, FieldSchema.mk.injEq]
  tauto

/-! ## All fields -/

/-- No difference of some fields is described when all are numeric and they differ at most in the
signs of zeros. -/
lemma diffFields_eq_nil_iff {fs gs : List FieldSchema} (hlen : fs.length = gs.length) (n : ℕ) :
    (((fs.zip gs).zipIdx n).flatMap fun e => diffField env e.2 e.1.1 e.1.2) = [] ↔
      (∀ f ∈ fs, f.Numeric) ∧ fs.map FieldSchema.unsigned = gs.map FieldSchema.unsigned := by
  induction fs generalizing gs n with
  | nil =>
    obtain rfl := List.length_eq_zero_iff.mp hlen.symm
    simp
  | cons f fs ih =>
    obtain ⟨g, gs, rfl⟩ := List.exists_cons_of_length_eq_add_one hlen.symm
    rw [List.zip_cons_cons, List.zipIdx_cons, List.flatMap_cons, List.append_eq_nil_iff,
      diffField_eq_nil_iff, ih (Nat.succ_inj.mp hlen), List.forall_mem_cons, List.map_cons,
      List.map_cons, List.cons.injEq]
    tauto

/-- No difference of two schemas is described when all fields are numeric and they differ at most in
the signs of zeros. -/
lemma diffSchemas_eq_nil_iff {p q : ParsedExtraBytes} : diffSchemas env p q = [] ↔
    (∀ f ∈ p.fields, f.Numeric) ∧
      p.fields.map FieldSchema.unsigned = q.fields.map FieldSchema.unsigned := by
  unfold diffSchemas
  by_cases hlen : p.fields.length = q.fields.length
  · rw [if_neg (not_not.mpr hlen)]
    exact diffFields_eq_nil_iff hlen 0
  · rw [if_pos hlen]
    refine iff_of_false (List.cons_ne_nil _ _) fun h => hlen ?_
    have hlengths := congrArg List.length h.2
    rwa [List.length_map, List.length_map] at hlengths

/-- The hashed bytes of parsed schemas agree when the fields do. -/
lemma stream_eq_iff {payload payload' : List UInt8} {p q : ParsedExtraBytes}
    (hp : ParsedExtraBytes.parse payload = .ok p) (hq : ParsedExtraBytes.parse payload' = .ok q) :
    p.stream = q.stream ↔ p.fields = q.fields := by
  have hclosed : ∀ {payload : List UInt8} {p : ParsedExtraBytes},
      ParsedExtraBytes.parse payload = .ok p → ∀ f ∈ p.fields, f.Closed := by
    intro payload p h f hf
    rw [fields_of_parse h] at hf
    obtain ⟨d, -, rfl⟩ := List.mem_map.mp hf
    exact closed_parseSchema d
  constructor
  · exact fields_eq_of_stream (hclosed hp) (hclosed hq)
  · intro h
    rw [ParsedExtraBytes.stream, ParsedExtraBytes.stream, h]

/-- Schemas with the same fields are numeric, and numeric schemas do not differ in the signs of
zeros alone. -/
def Comparable (p q : ParsedExtraBytes) : Prop :=
  (p.fields = q.fields → ∀ f ∈ p.fields, f.Numeric) ∧
    (p.fields.map FieldSchema.unsigned = q.fields.map FieldSchema.unsigned →
      (∀ f ∈ p.fields, f.Numeric) → p.fields = q.fields)

/-- **When the two comparisons agree.**  The hashed bytes determine the fields, and no difference is
described exactly for equal bytes as long as equal schemas are numeric and no difference is one
between two zeros alone. -/
theorem diffSchemas_iff_stream (env : Externals) {payload payload' : List UInt8}
    {p q : ParsedExtraBytes} (hp : ParsedExtraBytes.parse payload = .ok p)
    (hq : ParsedExtraBytes.parse payload' = .ok q) :
    (p.stream = q.stream ↔ p.fields = q.fields) ∧
      ((diffSchemas env p q = [] ↔ p.stream = q.stream) ↔ Comparable p q) := by
  refine ⟨stream_eq_iff hp hq, ?_⟩
  rw [diffSchemas_eq_nil_iff, stream_eq_iff hp hq, Comparable]
  have hunsigned : p.fields = q.fields →
      p.fields.map FieldSchema.unsigned = q.fields.map FieldSchema.unsigned := fun h => by rw [h]
  tauto

/-! ## A scale of zero and a scale that is not a number -/

/-- The payload of one field whose first scale slot has the given upper two bytes. -/
def scaledPayload (low high : UInt8) : List UInt8 :=
  ((shortDescriptor 10 8 (Bytes.ascii "height")).set 118 low).set 119 high

/-- What it is parsed to. -/
def scaled (low high : UInt8) : ParsedExtraBytes :=
  ⟨(descriptors (scaledPayload low high)).map parseSchema,
    (descriptors (scaledPayload low high)).map parseStats⟩

lemma parse_scaledPayload (low high : UInt8) :
    ParsedExtraBytes.parse (scaledPayload low high) = .ok (scaled low high) := by
  apply if_neg
  rw [scaledPayload, List.length_set, List.length_set]
  decide +kernel

/-- Scales of one and of two: a difference is described, and different bytes are hashed. -/
theorem diffSchemas_iff_stream_scales :
    diffSchemas plainExternals (scaled 0xF0 0x3F) (scaled 0 0x40) ≠ [] ∧
      (scaled 0xF0 0x3F).stream ≠ (scaled 0 0x40).stream := by
  have hunsigned : (scaled 0xF0 0x3F).fields.map FieldSchema.unsigned ≠
      (scaled 0 0x40).fields.map FieldSchema.unsigned := by decide +kernel
  have hfields : (scaled 0xF0 0x3F).fields ≠ (scaled 0 0x40).fields := fun h =>
    hunsigned (congrArg _ h)
  obtain ⟨hstream, hagree⟩ := diffSchemas_iff_stream plainExternals (parse_scaledPayload 0xF0 0x3F)
    (parse_scaledPayload 0 0x40)
  have hne := mt hstream.mp hfields
  exact ⟨mt (hagree.mpr ⟨fun h => absurd h hfields, fun h => absurd h hunsigned⟩).mp hne, hne⟩

/-- Scales of zero with different signs hash to different bytes, although no difference is
described; and a scale that is not a number is described as different from itself. -/
theorem diffSchemas_zeros_nan :
    (ParsedExtraBytes.parse (scaledPayload 0 0) = .ok (scaled 0 0) ∧
      ParsedExtraBytes.parse (scaledPayload 0 0x80) = .ok (scaled 0 0x80) ∧
      diffSchemas plainExternals (scaled 0 0) (scaled 0 0x80) = [] ∧
      (scaled 0 0).stream ≠ (scaled 0 0x80).stream) ∧
    ParsedExtraBytes.parse (scaledPayload 0xF8 0x7F) = .ok (scaled 0xF8 0x7F) ∧
      diffSchemas plainExternals (scaled 0xF8 0x7F) (scaled 0xF8 0x7F) ≠ [] := by
  refine ⟨⟨parse_scaledPayload 0 0, parse_scaledPayload 0 0x80, ?_, ?_⟩,
    parse_scaledPayload 0xF8 0x7F, ?_⟩
  · rw [diffSchemas_eq_nil_iff]
    decide +kernel
  · decide +kernel
  · rw [Ne, diffSchemas_eq_nil_iff]
    decide +kernel

end CopcConverter
