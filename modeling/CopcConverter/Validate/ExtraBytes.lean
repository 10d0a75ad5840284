import CopcConverter.Validate.Crs

/-!
# The Extra Bytes record

The record that declares the trailing bytes of every point is a list of descriptors of 192 bytes,
one for every field.  Here it is parsed as the source parses it: a structural part (data type, name,
description, scale, offset, no-data value) that decides how the bytes of a point are read, and the
statistics of the file (minimum and maximum), which do not.

On the parsed record there are three computations.  The structural part is hashed, so that files can
be compared cheaply; when hashes differ, the fields are compared one by one to describe the
difference; and the statistics of all files are united and patched into the record of the output,
where integers pass through floating-point numbers.  A Rust string is its UTF-8 bytes here, and
bytes that are not UTF-8 decode to the empty string.
-/

namespace CopcConverter

open Bytes (overwrite)

/-! ## Descriptors -/

/-- Size of one Extra Bytes descriptor block. -/
def descriptorSize : ℕ := 192

/-- The bits of the `options` byte. -/
def noDataBit : UInt8 := 1
@[inherit_doc noDataBit] def minBit : UInt8 := 2
@[inherit_doc noDataBit] def maxBit : UInt8 := 4
@[inherit_doc noDataBit] def scaleBit : UInt8 := 8
@[inherit_doc noDataBit] def offsetBit : UInt8 := 16

/-- Human-readable name for a data type code. -/
def dataTypeName (dataType : UInt8) : String :=
  match dataType.toNat with
  | 0 => "undocumented"
  | 1 => "u8"
  | 2 => "i8"
  | 3 => "u16"
  | 4 => "i16"
  | 5 => "u32"
  | 6 => "i32"
  | 7 => "u64"
  | 8 => "i64"
  | 9 => "f32"
  | 10 => "f64"
  | _ => "?"

/-- Decode one 8-byte stat slot per the descriptor's data type. -/
def anytypeToF64 (dataType : UInt8) (raw : UInt64) : Option F64 :=
  match dataType.toNat with
  | 1 | 3 | 5 | 7 => some (F64.ofNat raw.toNat)
  | 2 | 4 | 6 | 8 => some (F64.ofInt raw.toInt64.toInt)
  | 9 | 10 => some ⟨raw⟩
  | _ => none

/-- Encode a stat value back into an 8-byte slot. -/
def f64ToAnytype (dataType : UInt8) (value : F64) : Option UInt64 :=
  match dataType.toNat with
  | 1 | 3 | 5 | 7 => some value.roundToU64
  | 2 | 4 | 6 | 8 => some value.roundToI64
  | 9 | 10 => some value.bits
  | _ => none

/-- The three per-axis slots of a descriptor. -/
structure Slots (α : Type) where
  s₀ : α
  s₁ : α
  s₂ : α
  deriving DecidableEq, Repr, Inhabited

namespace Slots

variable {α β γ : Type}

def toList (s : Slots α) : List α := [s.s₀, s.s₁, s.s₂]

def map (f : α → β) (s : Slots α) : Slots β := ⟨f s.s₀, f s.s₁, f s.s₂⟩

def zipWith (f : α → β → γ) (s : Slots α) (t : Slots β) : Slots γ :=
  ⟨f s.s₀ t.s₀, f s.s₁ t.s₁, f s.s₂ t.s₂⟩

end Slots

/-- Structural fingerprint of one Extra Bytes field: what defines the per-point byte layout and the
decoding of values. -/
structure FieldSchema where
  dataType : UInt8
  /-- Field name, with trailing NUL bytes trimmed. -/
  name : List UInt8
  /-- Field description, with trailing NUL bytes trimmed. -/
  description : List UInt8
  /-- Scale and offset bits of the `options` byte. -/
  optionsStructural : UInt8
  scale : Slots F64
  offset : Slots F64
  noData : Slots UInt64
  deriving DecidableEq

/-- Per-field stat ranges of one file. -/
structure FieldStats where
  /-- The no_data, min and max bits of the `options` byte. -/
  optionsStats : UInt8
  min : Slots F64
  max : Slots F64
  deriving Inhabited

/-- A parsed record: schema and per-field stats. -/
structure ParsedExtraBytes where
  fields : List FieldSchema
  stats : List FieldStats

/-! ## Parsing -/

/-- Decode a NUL-padded string; bytes that are not UTF-8 decode to the empty string. -/
def trimNul (buf : List UInt8) : List UInt8 :=
  if Utf8.valid buf then Bytes.trimEnd (fun b => b = 0) buf else []

/-- Three consecutive 8-byte slots. -/
def slotsAt (bytes : List UInt8) (off : ℕ) : Slots UInt64 :=
  ⟨Bytes.readU64 bytes off, Bytes.readU64 bytes (off + 8), Bytes.readU64 bytes (off + 16)⟩

/-- The data type of a descriptor. -/
def descriptorType (bytes : List UInt8) : UInt8 := bytes.getD 2 0

/-- The options byte of a descriptor. -/
def descriptorOptions (bytes : List UInt8) : UInt8 := bytes.getD 3 0

/-- The name bytes of a descriptor, with their padding. -/
def descriptorName (bytes : List UInt8) : List UInt8 := (bytes.drop 4).take 32

/-- The schema of one descriptor. -/
def parseSchema (bytes : List UInt8) : FieldSchema where
  dataType := descriptorType bytes
  name := trimNul (descriptorName bytes)
  description := trimNul ((bytes.drop 160).take 32)
  optionsStructural := descriptorOptions bytes &&& (scaleBit ||| offsetBit)
  scale := (slotsAt bytes 112).map F64.mk
  offset := (slotsAt bytes 136).map F64.mk
  noData := slotsAt bytes 40

/-- The stats of one descriptor. -/
def parseStats (bytes : List UInt8) : FieldStats :=
  let dataType := descriptorType bytes
  let slot := fun raw => (anytypeToF64 dataType raw).getD F64.nan
  let statMask :=
    if (anytypeToF64 dataType 0).isSome then noDataBit ||| minBit ||| maxBit else noDataBit
  { optionsStats := descriptorOptions bytes &&& statMask
    min := (slotsAt bytes 64).map slot
    max := (slotsAt bytes 88).map slot }

/-- The descriptor blocks of a payload. -/
def descriptors (payload : List UInt8) : List (List UInt8) :=
  (List.range (payload.length / descriptorSize)).map fun i =>
    (payload.drop (i * descriptorSize)).take descriptorSize

/-- Parse the payload, whose length must be a multiple of the descriptor size. -/
def ParsedExtraBytes.parse (payload : List UInt8) : Except String ParsedExtraBytes :=
  if payload.length % descriptorSize ≠ 0 then
    .error ("Extra Bytes VLR payload length " ++ toString payload.length ++
      " is not a multiple of " ++ toString descriptorSize)
  else
    .ok { fields := (descriptors payload).map parseSchema
          stats := (descriptors payload).map parseStats }

/-! ## The schema hash -/

/-- What hashing one field writes: a string is closed by a byte that no UTF-8 text contains. -/
def FieldSchema.stream (f : FieldSchema) : List UInt8 :=
  f.dataType :: (f.name ++ 0xFF :: (f.description ++ 0xFF :: (f.optionsStructural ::
    (f.scale.toList.flatMap fun v => Bytes.u64 v.bits) ++
    (f.offset.toList.flatMap fun v => Bytes.u64 v.bits) ++
    (f.noData.toList.flatMap Bytes.u64))))

/-- What hashing a record writes. -/
def ParsedExtraBytes.stream (parsed : ParsedExtraBytes) : List UInt8 :=
  parsed.fields.flatMap FieldSchema.stream

/-- Hash of the structural fields. -/
def schemaHash (env : Externals) (parsed : ParsedExtraBytes) : UInt64 := env.hasher parsed.stream

/-! ## Describing differences -/

/-- The text of a string. -/
def text (s : List UInt8) : String := (String.fromUTF8? ⟨s.toArray⟩).getD ""

def fieldNameList (fields : List FieldSchema) : String :=
  if fields.isEmpty then "no fields"
  else ", ".intercalate (fields.map fun f => if f.name.isEmpty then "<unnamed>" else text f.name)

/-- Three slots as a debug-formatted array. -/
def debugSlots {α : Type} (debug : α → String) (s : Slots α) : String :=
  "[" ++ ", ".intercalate (s.toList.map debug) ++ "]"

/-- Eight binary digits. -/
def binary8 (b : UInt8) : String :=
  String.ofList ((List.range 8).reverse.map fun i => if b.toNat.testBit i then '1' else '0')

/-- Float slots differ as arrays of numbers. -/
def slotsNe (s t : Slots F64) : Bool := !(s.zipWith F64.eq t).toList.all id

/-- The differences of one field. -/
def diffField (env : Externals) (i : ℕ) (rf other : FieldSchema) : List String :=
  let field := "field " ++ toString i ++ " "
  let named := field ++ env.debugStr rf.name
  (if rf.name ≠ other.name then
    [field ++ "name mismatch: reference " ++ env.debugStr rf.name ++ ", other " ++
      env.debugStr other.name] else []) ++
  (if rf.dataType ≠ other.dataType then
    [named ++ " data_type mismatch: reference " ++ toString rf.dataType.toNat ++ " (" ++
      dataTypeName rf.dataType ++ "), other " ++ toString other.dataType.toNat ++ " (" ++
      dataTypeName other.dataType ++ ")"] else []) ++
  (if rf.description ≠ other.description then
    [named ++ " description mismatch: reference " ++ env.debugStr rf.description ++ ", other " ++
      env.debugStr other.description] else []) ++
  (if rf.optionsStructural ≠ other.optionsStructural then
    [named ++ " options (scale/offset bits) mismatch: reference 0b" ++
      binary8 rf.optionsStructural ++ ", other 0b" ++ binary8 other.optionsStructural] else []) ++
  (if slotsNe rf.scale other.scale then
    [named ++ " scale mismatch: reference " ++ debugSlots env.debugF64 rf.scale ++ ", other " ++
      debugSlots env.debugF64 other.scale] else []) ++
  (if slotsNe rf.offset other.offset then
    [named ++ " offset mismatch: reference " ++ debugSlots env.debugF64 rf.offset ++ ", other " ++
      debugSlots env.debugF64 other.offset] else []) ++
  (if rf.noData ≠ other.noData then
    [named ++ " no_data mismatch: reference " ++
      debugSlots (fun v => toString v.toNat) rf.noData ++ ", other " ++
      debugSlots (fun v => toString v.toNat) other.noData] else [])

/-- Every structural difference between two parsed schemas. -/
def diffSchemas (env : Externals) (reference other : ParsedExtraBytes) : List String :=
  if reference.fields.length ≠ other.fields.length then
    ["field count differs: reference has " ++ toString reference.fields.length ++ " (" ++
      fieldNameList reference.fields ++ "), other has " ++ toString other.fields.length ++ " (" ++
      fieldNameList other.fields ++ ")"]
  else
    ((reference.fields.zip other.fields).zipIdx).flatMap fun e => diffField env e.2 e.1.1 e.1.2

/-! ## Merging the statistics -/

/-- The union of the stats of one field so far: per axis the extreme value and whether any value
went into it. -/
structure FieldMerge where
  anyNoData : Bool
  min : Slots (F64 × Bool)
  max : Slots (F64 × Bool)

/-- Nothing merged yet. -/
def FieldMerge.start : FieldMerge where
  anyNoData := false
  min := ⟨(F64.infinity, false), (F64.infinity, false), (F64.infinity, false)⟩
  max := ⟨(F64.negInfinity, false), (F64.negInfinity, false), (F64.negInfinity, false)⟩

/-- Fold one stat value into an axis; values that are not finite are skipped. -/
def foldAxis (better : F64 → F64 → Bool) (merged : F64 × Bool) (incoming : F64) : F64 × Bool :=
  if incoming.isFinite then (if better incoming merged.1 then incoming else merged.1, true)
  else merged

/-- Fold the stats of one file into those of a field. -/
def mergeFile (nFields fieldIdx : ℕ) (m : FieldMerge) (parsed : ParsedExtraBytes) :
    Except String FieldMerge :=
  if parsed.fields.length ≠ nFields then
    .error ("stat merge expected " ++ toString nFields ++ " fields per file but one has " ++
      toString parsed.fields.length)
  else
    let stats := parsed.stats.getD fieldIdx default
    .ok
      { anyNoData := m.anyNoData || stats.optionsStats &&& noDataBit ≠ 0
        min := if stats.optionsStats &&& minBit ≠ 0 then
          m.min.zipWith (foldAxis F64.lt) stats.min else m.min
        max := if stats.optionsStats &&& maxBit ≠ 0 then
          m.max.zipWith (foldAxis fun a b => F64.lt b a) stats.max else m.max }

/-- The encoded slots of a merged stat; axes without a value are zero. -/
def encodeSlots (dataType : UInt8) (merged : Slots (F64 × Bool)) : List UInt8 :=
  merged.toList.flatMap fun e =>
    Bytes.u64 (if e.2 then (f64ToAnytype dataType e.1).getD 0 else 0)

/-- Patch the options byte and the stat slots of one descriptor. -/
def patchDescriptor (descriptor : List UInt8) (m : FieldMerge) : List UInt8 :=
  let dataType := descriptorType descriptor
  let anyMin := m.min.s₀.2
  let anyMax := m.max.s₀.2
  let newOptions := (descriptorOptions descriptor &&& (scaleBit ||| offsetBit)) |||
    (if m.anyNoData then noDataBit else 0) ||| (if anyMin then minBit else 0) |||
    (if anyMax then maxBit else 0)
  let withOptions := descriptor.set 3 newOptions
  let withMin := if anyMin then overwrite withOptions 64 (encodeSlots dataType m.min)
    else withOptions
  if anyMax then overwrite withMin 88 (encodeSlots dataType m.max) else withMin

/-- Merge the stats of one field into its descriptor. -/
def mergeField (perFileParsed : List ParsedExtraBytes) (nFields : ℕ) (canonical : List UInt8)
    (fieldIdx : ℕ) : Except String (List UInt8) := do
  let m ← perFileParsed.foldlM (mergeFile nFields fieldIdx) FieldMerge.start
  let off := fieldIdx * descriptorSize
  let descriptor := (canonical.drop off).take descriptorSize
  .ok (overwrite canonical off (patchDescriptor descriptor m))

/-- Merge the stats of some fields: the payload is changed in place, also by the fields before the
one that fails. -/
def mergeFields (perFileParsed : List ParsedExtraBytes) (nFields : ℕ) :
    List ℕ → List UInt8 → Except String Unit × List UInt8
  | [], canonical => (.ok (), canonical)
  | fieldIdx :: rest, canonical =>
    match mergeField perFileParsed nFields canonical fieldIdx with
    | .error e => (.error e, canonical)
    | .ok canonical => mergeFields perFileParsed nFields rest canonical

/-- Patch the canonical payload with the union of the stats of all files: the outcome and the
payload afterwards. -/
def mergeStatsIntoCanonical (canonical : List UInt8) (perFileParsed : List ParsedExtraBytes) :
    Except String Unit × List UInt8 :=
  if perFileParsed.isEmpty then (.ok (), canonical)
  else if canonical.length % descriptorSize ≠ 0 then
    (.error ("canonical VLR length " ++ toString canonical.length ++
      " not a multiple of descriptor size"), canonical)
  else
    let nFields := canonical.length / descriptorSize
    mergeFields perFileParsed nFields (List.range nFields) canonical

end CopcConverter
