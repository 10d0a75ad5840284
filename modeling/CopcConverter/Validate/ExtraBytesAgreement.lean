import CopcConverter.Foundations.Lists
import CopcConverter.Validate.CrsAgreement

/-!
# When accepted files share their Extra Bytes layout

The bytes behind the points of all files end up in one output, under one description.  So files must
agree on the layout: the data type, the name, the width and the place of every field.  Accepted
files have one schema hash and so, as long as the hashes do not collide, one list of parsed fields.

The parsed field fixes the data type and, as far as it is UTF-8, the name.  It does not fix the
options byte, which is a set of flags for most data types but is the width of a field of type 0.  So
accepted files share their layout exactly when they agree on what the parsed fields leave out, and
two files with two undocumented fields each, one and two bytes wide in different order, are accepted
although the bytes of their points mean different things.
-/

namespace CopcConverter

variable {env : Externals}

/-! ## The hashed stream determines the fields -/

/-- The bytes of three slots determine them. -/
lemma flatMap_slots_inj {α : Type} {f : α → UInt64} (hf : Function.Injective f) {s t : Slots α}
    (h : (s.toList.flatMap fun v => Bytes.u64 (f v)) = t.toList.flatMap fun v => Bytes.u64 (f v)) :
    s = t := by
  obtain ⟨a, b, c⟩ := s
  obtain ⟨a', b', c'⟩ := t
  simp only [Slots.toList, List.flatMap_cons, List.flatMap_nil, List.append_nil] at h
  obtain ⟨ha, h⟩ := List.append_inj h (by simp)
  obtain ⟨hb, hc⟩ := List.append_inj h (by simp)
  rw [hf (Bytes.u64_injective ha), hf (Bytes.u64_injective hb), hf (Bytes.u64_injective hc)]

lemma length_slots {α : Type} (f : α → UInt64) (s : Slots α) :
    (s.toList.flatMap fun v => Bytes.u64 (f v)).length = 24 := by
  simp [Slots.toList, List.flatMap_cons]

lemma f64_bits_injective : Function.Injective F64.bits := fun a b h => by
  cases a
  cases b
  exact congrArg F64.mk h

/-- The name and the description of a field do not contain the closing byte. -/
structure FieldSchema.Closed (f : FieldSchema) : Prop where
  name : (0xFF : UInt8) ∉ f.name
  description : (0xFF : UInt8) ∉ f.description

/-- What one field writes can be told apart from what follows it. -/
lemma stream_append_inj {f g : FieldSchema} (hf : f.Closed) (hg : g.Closed) {s t : List UInt8}
    (h : f.stream ++ s = g.stream ++ t) : f = g ∧ s = t := by
  unfold FieldSchema.stream at h
  simp only [List.cons_append, List.append_assoc, List.cons.injEq] at h
  obtain ⟨htype, h⟩ := h
  obtain ⟨hname, h⟩ := Lists.append_cons_inj hf.name hg.name h
  obtain ⟨hdesc, h⟩ := Lists.append_cons_inj hf.description hg.description h
  obtain ⟨hopt, h⟩ := List.cons.inj h
  obtain ⟨hscale, h⟩ := List.append_inj h
    ((length_slots F64.bits f.scale).trans (length_slots F64.bits g.scale).symm)
  obtain ⟨hoff, h⟩ := List.append_inj h
    ((length_slots F64.bits f.offset).trans (length_slots F64.bits g.offset).symm)
  obtain ⟨hno, hrest⟩ := List.append_inj h
    ((length_slots id f.noData).trans (length_slots id g.noData).symm)
  refine ⟨?_, hrest⟩
  obtain ⟨t₁, n₁, d₁, o₁, sc₁, of₁, nd₁⟩ := f
  obtain ⟨t₂, n₂, d₂, o₂, sc₂, of₂, nd₂⟩ := g
  simp only [FieldSchema.mk.injEq]
  exact ⟨htype, hname, hdesc, hopt, flatMap_slots_inj f64_bits_injective hscale,
    flatMap_slots_inj f64_bits_injective hoff, flatMap_slots_inj Function.injective_id hno⟩

/-- The hashed stream is an injective encoding of the field list. -/
lemma fields_eq_of_stream {fs gs : List FieldSchema} (hfs : ∀ f ∈ fs, f.Closed)
    (hgs : ∀ g ∈ gs, g.Closed)
    (h : fs.flatMap FieldSchema.stream = gs.flatMap FieldSchema.stream) : fs = gs := by
  induction fs generalizing gs with
  | nil =>
    cases gs with
    | nil => rfl
    | cons g gs =>
      rw [List.flatMap_nil, List.flatMap_cons] at h
      exact absurd h (by simp [FieldSchema.stream])
  | cons f fs ih =>
    cases gs with
    | nil =>
      rw [List.flatMap_nil, List.flatMap_cons] at h
      exact absurd h (by simp [FieldSchema.stream])
    | cons g gs =>
      rw [List.flatMap_cons, List.flatMap_cons] at h
      obtain ⟨rfl, hrest⟩ := stream_append_inj (hfs f List.mem_cons_self)
        (hgs g List.mem_cons_self) h
      rw [ih (fun x hx => hfs x (List.mem_cons_of_mem _ hx))
        (fun x hx => hgs x (List.mem_cons_of_mem _ hx)) hrest]

/-- Decoded strings are UTF-8, so they do not contain the closing byte. -/
lemma notMem_trimNul (buf : List UInt8) : (0xFF : UInt8) ∉ trimNul buf := by
  unfold trimNul
  split_ifs with h
  · intro hmem
    refine Utf8.notMem_of_valid h (List.mem_reverse.mp ?_)
    exact List.dropWhile_subset _ (List.mem_reverse.mp hmem)
  · exact List.not_mem_nil

lemma closed_parseSchema (bytes : List UInt8) : (parseSchema bytes).Closed :=
  ⟨notMem_trimNul _, notMem_trimNul _⟩

/-- A parsed record has the schemas of the descriptors of its payload. -/
lemma fields_of_parse {payload : List UInt8} {p : ParsedExtraBytes}
    (h : ParsedExtraBytes.parse payload = .ok p) : p.fields =
      (descriptors payload).map parseSchema := by
  unfold ParsedExtraBytes.parse at h
  split_ifs at h
  obtain rfl := Except.ok.inj h
  rfl

/-! ## The layout of a file -/

/-- The name bytes of a descriptor up to trailing NULs. -/
def rawName (descriptor : List UInt8) : List UInt8 :=
  Bytes.trimEnd (fun b => b = 0) (descriptorName descriptor)

/-- The width of a field in every point record: the options byte for an undocumented field, else
fixed by the data type. -/
def fieldWidth (typeWidth : UInt8 → ℕ) (descriptor : List UInt8) : ℕ :=
  if descriptorType descriptor = 0 then (descriptorOptions descriptor).toNat
  else typeWidth (descriptorType descriptor)

/-- The position of a field among the extra bytes of a point record. -/
def fieldPosition (typeWidth : UInt8 → ℕ) (ds : List (List UInt8)) (i : ℕ) : ℕ :=
  ((ds.take i).map (fieldWidth typeWidth)).sum

/-- The descriptors of a file. -/
def ScannedFile.descriptors (f : ScannedFile env) : List (List UInt8) :=
  (f.extraBytesVlr.map CopcConverter.descriptors).getD []

/-- All files agree, field by field, on the data type, the name and the place of the field. -/
def LayoutAgreement (typeWidth : UInt8 → ℕ) (files : List (ScannedFile env)) : Prop :=
  ∀ f ∈ files, ∀ g ∈ files, f.descriptors.length = g.descriptors.length ∧
    ∀ i d e, f.descriptors[i]? = some d → g.descriptors[i]? = some e →
      descriptorType d = descriptorType e ∧ rawName d = rawName e ∧
        fieldWidth typeWidth d = fieldWidth typeWidth e ∧
          fieldPosition typeWidth f.descriptors i = fieldPosition typeWidth g.descriptors i

/-- What the parsed fields leave out agrees: the options bytes of undocumented fields, and names
that are not UTF-8. -/
def UnparsedAgreement (files : List (ScannedFile env)) : Prop :=
  ∀ f ∈ files, ∀ g ∈ files, ∀ (i : ℕ) d e, f.descriptors[i]? = some d → g.descriptors[i]? = some e →
    (descriptorType d = 0 → descriptorType e = 0 → descriptorOptions d = descriptorOptions e) ∧
      (¬ (Utf8.valid (descriptorName d) = true ∧ Utf8.valid (descriptorName e) = true) →
        rawName d = rawName e)

/-- The hashes of the given files' schemas do not collide. -/
def CollisionFree (env : Externals) (files : List (ScannedFile env)) : Prop :=
  ∀ f ∈ files, ∀ g ∈ files, ∀ p q, f.result.extraBytesParsed = some p →
    g.result.extraBytesParsed = some q → schemaHash env p = schemaHash env q → p.stream = q.stream

/-- Accepted files have one schema hash. -/
lemma schemaHash_of_validate {files : List (ScannedFile env)} {inputFiles : List String}
    {temporalIndex : Option UInt32} {v : ValidatedInputs}
    (hok : (aggregate files).validate env inputFiles temporalIndex = .ok v) :
    ∀ f ∈ files, ∀ g ∈ files, f.result.extraBytesSchemaHash = g.result.extraBytesSchemaHash := by
  obtain ⟨first, rest, hres, -, hextras⟩ := validate_ok hok
  have hcommon : ∀ f ∈ files, f.result.extraBytesSchemaHash =
      ((aggregate files).results.getD (referenceExtrasIdx (aggregate files).results)
        first).extraBytesSchemaHash := by
    intro f hf
    obtain ⟨j, hj, rfl⟩ := List.mem_iff_getElem.mp hf
    have hget : (aggregate files).results[j]? = some files[j].result := by
      change (files.map ScannedFile.result)[j]? = _
      rw [List.getElem?_map, List.getElem?_eq_getElem hj]
      rfl
    have h := hextras (files[j].result, j) (List.mem_zipIdx_iff_getElem?.mpr hget)
    unfold checkExtras at h
    split_ifs at h with hidx hsame
    · simp only at hidx
      rw [List.getD_eq_getElem?_getD, ← hidx, hget, Option.getD_some]
    · exact hsame.1
  exact fun f hf g hg => (hcommon f hf).trans (hcommon g hg).symm

/-- Accepted files have one list of parsed fields. -/
lemma schemas_of_validate {files : List (ScannedFile env)} {inputFiles : List String}
    {temporalIndex : Option UInt32} {v : ValidatedInputs} (hinj : CollisionFree env files)
    (hok : (aggregate files).validate env inputFiles temporalIndex = .ok v) :
    ∀ f ∈ files, ∀ g ∈ files,
      f.descriptors.map parseSchema = g.descriptors.map parseSchema := by
  intro f hf g hg
  have hhash := schemaHash_of_validate hok f hf g hg
  rw [f.hashed, g.hashed] at hhash
  unfold ScannedFile.descriptors
  cases hfv : f.extraBytesVlr with
  | none =>
    cases hgv : g.extraBytesVlr with
    | none => rfl
    | some bytes =>
      obtain ⟨p, -, hp⟩ := g.parsed bytes hgv
      rw [f.undeclared hfv, hp] at hhash
      cases hhash
  | some bytes =>
    obtain ⟨p, hparse, hp⟩ := f.parsed bytes hfv
    cases hgv : g.extraBytesVlr with
    | none =>
      rw [g.undeclared hgv, hp] at hhash
      cases hhash
    | some bytes' =>
      obtain ⟨q, hparse', hq⟩ := g.parsed bytes' hgv
      rw [hp, hq] at hhash
      have hstream := hinj f hf g hg p q hp hq (Option.some.inj hhash)
      change (descriptors bytes).map parseSchema = (descriptors bytes').map parseSchema
      rw [← fields_of_parse hparse, ← fields_of_parse hparse']
      refine fields_eq_of_stream (fun x hx => ?_) (fun x hx => ?_) hstream
      · rw [fields_of_parse hparse] at hx
        obtain ⟨d, -, rfl⟩ := List.mem_map.mp hx
        exact closed_parseSchema d
      · rw [fields_of_parse hparse'] at hx
        obtain ⟨d, -, rfl⟩ := List.mem_map.mp hx
        exact closed_parseSchema d

/-- Descriptors with one schema agree on the data type. -/
lemma type_of_schema {d e : List UInt8} (h : parseSchema d = parseSchema e) :
    descriptorType d = descriptorType e := congrArg FieldSchema.dataType h

/-- Descriptors with one schema agree on a name that is UTF-8 in both. -/
lemma rawName_of_schema {d e : List UInt8} (h : parseSchema d = parseSchema e)
    (hvalid : Utf8.valid (descriptorName d) = true ∧ Utf8.valid (descriptorName e) = true) :
    rawName d = rawName e := by
  have hname : trimNul (descriptorName d) = trimNul (descriptorName e) :=
    congrArg FieldSchema.name h
  unfold trimNul at hname
  rwa [if_pos hvalid.1, if_pos hvalid.2] at hname

/-- Accepted files share their layout exactly when they agree on what the parsed fields leave
out. -/
theorem layoutAgreement_iff (typeWidth : UInt8 → ℕ) {files : List (ScannedFile env)}
    {inputFiles : List String} {temporalIndex : Option UInt32} {v : ValidatedInputs}
    (hinj : CollisionFree env files)
    (hok : (aggregate files).validate env inputFiles temporalIndex = .ok v) :
    LayoutAgreement typeWidth files ↔ UnparsedAgreement files := by
  have hschemas := schemas_of_validate hinj hok
  have hsame : ∀ f ∈ files, ∀ g ∈ files, ∀ (i : ℕ) d e, f.descriptors[i]? = some d →
      g.descriptors[i]? = some e → parseSchema d = parseSchema e := fun f hf g hg i d e hd he => by
    have h := congrArg (fun l : List FieldSchema => l[i]?) (hschemas f hf g hg)
    simp only [List.getElem?_map, hd, he, Option.map_some] at h
    exact Option.some.inj h
  constructor
  · intro hlayout f hf g hg i d e hd he
    obtain ⟨-, hfields⟩ := hlayout f hf g hg
    obtain ⟨-, hname, hwidth, -⟩ := hfields i d e hd he
    refine ⟨fun hd0 he0 => ?_, fun _ => hname⟩
    unfold fieldWidth at hwidth
    rw [if_pos hd0, if_pos he0] at hwidth
    exact UInt8.toNat_inj.mp hwidth
  · intro hrest f hf g hg
    have hlen : f.descriptors.length = g.descriptors.length := by
      have h := congrArg List.length (hschemas f hf g hg)
      rwa [List.length_map, List.length_map] at h
    have hwidth : ∀ (i : ℕ) d e, f.descriptors[i]? = some d → g.descriptors[i]? = some e →
        fieldWidth typeWidth d = fieldWidth typeWidth e := fun i d e hd he => by
      have htype := type_of_schema (hsame f hf g hg i d e hd he)
      unfold fieldWidth
      by_cases h0 : descriptorType d = 0
      · rw [if_pos h0, if_pos (htype ▸ h0), (hrest f hf g hg i d e hd he).1 h0 (htype ▸ h0)]
      · rw [if_neg h0, if_neg (htype ▸ h0), htype]
    have hwidths : f.descriptors.map (fieldWidth typeWidth) =
        g.descriptors.map (fieldWidth typeWidth) := by
      refine List.ext_getElem (by rw [List.length_map, List.length_map, hlen]) fun i h₁ h₂ => ?_
      rw [List.length_map] at h₁ h₂
      rw [List.getElem_map, List.getElem_map]
      exact hwidth i _ _ (List.getElem?_eq_getElem h₁) (List.getElem?_eq_getElem h₂)
    refine ⟨hlen, fun i d e hd he => ?_⟩
    have hschema := hsame f hf g hg i d e hd he
    refine ⟨type_of_schema hschema, ?_, hwidth i d e hd he, ?_⟩
    · by_cases hvalid : Utf8.valid (descriptorName d) = true ∧ Utf8.valid (descriptorName e) = true
      · exact rawName_of_schema hschema hvalid
      · exact (hrest f hf g hg i d e hd he).2 hvalid
    · unfold fieldPosition
      rw [List.map_take, List.map_take, hwidths]

/-! ## Two undocumented fields -/

/-- A descriptor with a data type, an options byte and a name, and zeros elsewhere. -/
def shortDescriptor (dataType options : UInt8) (name : List UInt8) : List UInt8 :=
  [0, 0, dataType, options] ++ name ++ List.replicate (188 - name.length) 0

lemma length_shortDescriptor (dataType options : UInt8) {name : List UInt8}
    (hname : name.length ≤ 188) : (shortDescriptor dataType options name).length = 192 := by
  rw [shortDescriptor, List.length_append, List.length_append, List.length_replicate]
  change 4 + name.length + _ = _
  omega

/-- Two undocumented fields of the given widths. -/
def opaquePayload (width₁ width₂ : UInt8) : List UInt8 :=
  shortDescriptor 0 width₁ (Bytes.ascii "first") ++ shortDescriptor 0 width₂ (Bytes.ascii "second")

/-- A file with the given extra bytes, as scanned. -/
def extraBytesFile (payload : List UInt8) (hlen : payload.length % descriptorSize = 0)
    (numExtraBytes : UInt16) : ScannedFile plainExternals where
  result :=
    { crs := none
      extraBytesParsed := some ⟨(descriptors payload).map parseSchema,
        (descriptors payload).map parseStats⟩
      extraBytesSchemaHash := some (schemaHash plainExternals
        ⟨(descriptors payload).map parseSchema, (descriptors payload).map parseStats⟩)
      numExtraBytes := numExtraBytes
      pointFormatId := 6 }
  wkt := none
  extraBytesVlr := some payload
  crs_wkt h := by simp
  parsed bytes h := by
    obtain rfl := Option.some.inj h
    exact ⟨_, if_neg (not_not_intro hlen), rfl⟩
  undeclared h := by cases h
  hashed := rfl

/-- A file with two undocumented fields, three bytes wide together. -/
def opaqueFile (width₁ width₂ : UInt8) : ScannedFile plainExternals :=
  extraBytesFile (opaquePayload width₁ width₂) (by
    rw [opaquePayload, List.length_append, length_shortDescriptor _ _ (by decide),
      length_shortDescriptor _ _ (by decide)]
    rfl) 3

/-- The first file has the widths 1 and 2, the second one 2 and 1. -/
def opaqueFiles : List (ScannedFile plainExternals) := [opaqueFile 1 2, opaqueFile 2 1]

/-- Files are accepted when the check says so. -/
lemma exists_validated {files : List (ScannedFile plainExternals)}
    (hok : ((aggregate files).validate plainExternals ["a", "b"] none).isOk = true) :
    ∃ v, (aggregate files).validate plainExternals ["a", "b"] none = .ok v := by
  cases hv : (aggregate files).validate plainExternals ["a", "b"] none with
  | error e =>
    rw [hv] at hok
    cases hok
  | ok v => exact ⟨v, rfl⟩

/-- Schemas that write the same bytes to the hasher do not collide. -/
lemma collisionFree_of_stream {files : List (ScannedFile plainExternals)}
    (h : ∀ f ∈ files, ∀ g ∈ files, ∀ p ∈ f.result.extraBytesParsed,
      ∀ q ∈ g.result.extraBytesParsed, p.stream = q.stream) :
    CollisionFree plainExternals files := fun f hf g hg p q hp hq _ => h f hf g hg p hp q hq

lemma opaqueFiles_ok : ∃ v, (aggregate opaqueFiles).validate plainExternals ["a", "b"] none =
    .ok v := exists_validated (by decide +kernel)

lemma opaqueFiles_collisionFree : CollisionFree plainExternals opaqueFiles :=
  collisionFree_of_stream (by decide +kernel)

/-- Two unsigned numbers of two bytes, of which the second one has a minimum. -/
def levelPayload (minimum : UInt8) : List UInt8 :=
  shortDescriptor 3 0 (Bytes.ascii "floor") ++
    (shortDescriptor 3 minBit (Bytes.ascii "level")).set 64 minimum

/-- Two files whose statistics differ. -/
def levelFiles : List (ScannedFile plainExternals) :=
  [extraBytesFile (levelPayload 7) (by decide +kernel) 4,
    extraBytesFile (levelPayload 9) (by decide +kernel) 4]

/-- Two files that differ in a minimum have the same layout; for the two files with undocumented
fields the condition and the agreement are equivalent, too. -/
theorem layoutAgreement_iff_levels :
    LayoutAgreement (fun _ => 2) levelFiles ∧
      (LayoutAgreement (fun _ => 0) opaqueFiles ↔ UnparsedAgreement opaqueFiles) := by
  obtain ⟨v, hv⟩ := @exists_validated levelFiles (by decide +kernel)
  obtain ⟨w, hw⟩ := opaqueFiles_ok
  have hfree : CollisionFree plainExternals levelFiles :=
    collisionFree_of_stream (by decide +kernel)
  refine ⟨(layoutAgreement_iff _ hfree hv).mpr fun f hf g hg i d e hd he => ?_,
    layoutAgreement_iff _ opaqueFiles_collisionFree hw⟩
  have hfields : ∀ f ∈ levelFiles, ∀ d ∈ f.descriptors, descriptorType d ≠ 0 ∧
      Utf8.valid (descriptorName d) = true := by decide +kernel
  obtain ⟨hd0, hvalid⟩ := hfields f hf d (List.mem_of_getElem? hd)
  obtain ⟨-, hvalid'⟩ := hfields g hg e (List.mem_of_getElem? he)
  exact ⟨fun h => absurd h hd0, fun h => absurd ⟨hvalid, hvalid'⟩ h⟩

/-- The two files are accepted, although their fields have different widths. -/
theorem validate_opaqueFiles :
    (∃ v, (aggregate opaqueFiles).validate plainExternals ["a", "b"] none = .ok v) ∧
      CollisionFree plainExternals opaqueFiles ∧
        ¬ LayoutAgreement (fun _ => 0) opaqueFiles := by
  refine ⟨opaqueFiles_ok, opaqueFiles_collisionFree, fun h => ?_⟩
  obtain ⟨-, hfields⟩ := h (opaqueFile 1 2) (by simp [opaqueFiles]) (opaqueFile 2 1)
    (by simp [opaqueFiles])
  have hwidth := (hfields 0 (shortDescriptor 0 1 (Bytes.ascii "first"))
    (shortDescriptor 0 2 (Bytes.ascii "first")) (by decide +kernel) (by decide +kernel)).2.2.1
  exact absurd hwidth (by decide +kernel)

end CopcConverter
