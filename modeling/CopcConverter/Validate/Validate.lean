import CopcConverter.Validate.Scan

/-!
# Validation of the scanned files

`validate` checks what the files of one conversion must share, and derives what the output needs.
Every file is compared with a reference: its coordinate system with that of the first file that has
one, its point format with that of the first file, and the hash of its Extra Bytes schema and their
width with those of the first file that has extra bytes.  The first disagreement ends the validation
with an error that names both files, and for Extra Bytes with an explanation of the difference.

From files that agree come the output format (6, 7 or 8, by what the input format has), the WKT text
(the scanned one, or the registry's for GeoTIFF files), and the merged Extra Bytes payload.  A
temporal index is only accepted with a positive stride, and for formats that have GPS times.
-/

namespace CopcConverter

/-- Why the inputs are rejected. -/
inductive ValidateError where
  | crsMismatch (fileA fileB : String)
  | pointFormatMismatch (fileA : String) (formatA : UInt8) (fileB : String) (formatB : UInt8)
  | extraBytesMismatch (fileA fileB detail : String)
  | invalidTemporalStride (stride : UInt32)
  | noGpsTime (format : UInt8)
  /-- Indexing the first of no results, which panics in the source. -/
  | noResults

/-- Validated output: consistent properties across all input files. -/
structure ValidatedInputs where
  wktCrs : Option (List UInt8)
  extraBytesVlr : Option (List UInt8)
  numExtraBytes : UInt16
  pointFormat : UInt8

/-- Map an input point format to a COPC output format. -/
def inputToCopcFormat (id : UInt8) : UInt8 :=
  match id.toNat with
  | 2 | 3 | 5 | 7 => 7
  | 8 | 10 => 8
  | _ => 6

/-- The point format includes GPS time. -/
def formatHasGpsTime (fmt : UInt8) : Bool := !(fmt = 0 || fmt = 2)

/-- The canonical WKT: the scanned one, or the registry's for the first GeoTIFF file. -/
def resolveWkt (env : Externals) (results : List ScanResult) (canonicalWkt : Option (List UInt8)) :
    Option (List UInt8) :=
  match canonicalWkt with
  | some w => some w
  | none =>
    (results.findSome? fun r => match r.crs with
      | some (.geoTiffEpsg h v) => some (h, v)
      | _ => none).bind fun code => env.fromCode code.1

/-- The first file that has any CRS, else the first file. -/
def crsFileIndex (results : List ScanResult) : ℕ :=
  (results.findIdx? fun r => r.crs.isSome).getD 0

/-- The name of a file. -/
def fileName (inputFiles : List String) (i : ℕ) : String := inputFiles.getD i ""

/-- The CRS and point format checks of one file. -/
def checkFile (inputFiles : List String) (crsIdx : ℕ) (referenceCrs : Option CrsKind)
    (firstFormat : UInt8) (canonicalWkt : Option (List UInt8)) (e : ScanResult × ℕ) :
    Except ValidateError Unit :=
  if e.2 ≠ crsIdx ∧ (crsEqual referenceCrs e.1.crs canonicalWkt).1 = false then
    .error (.crsMismatch (fileName inputFiles crsIdx) (fileName inputFiles e.2))
  else if e.1.pointFormatId ≠ firstFormat then
    .error (.pointFormatMismatch (fileName inputFiles 0) firstFormat (fileName inputFiles e.2)
      e.1.pointFormatId)
  else .ok ()

/-- The explanation of an Extra Bytes mismatch. -/
def extrasMismatchDetail (env : Externals) (referenceParsed : Option ParsedExtraBytes)
    (referenceNumExtras : UInt16) (other : ScanResult) : String :=
  let width :=
    if other.numExtraBytes ≠ referenceNumExtras then
      ["  - point trailing-byte width differs: reference declares " ++
        toString referenceNumExtras.toNat ++ " bytes, other declares " ++
        toString other.numExtraBytes.toNat]
    else []
  let schema := match referenceParsed, other.extraBytesParsed with
    | some reference, some parsed => (diffSchemas env reference parsed).map ("  - " ++ ·)
    | some _, none => ["  - reference declares an Extra Bytes VLR, other declares none"]
    | none, some _ => ["  - other declares an Extra Bytes VLR, reference declares none"]
    | none, none => []
  let lines := width ++ schema
  if lines.isEmpty then
    "  - (no structural differences detected; schema hashes diverged for an unknown reason)"
  else "\n".intercalate lines

/-- The reference for Extra Bytes diagnostics: the first file with extras, else the first file. -/
def referenceExtrasIdx (results : List ScanResult) : ℕ :=
  (results.findIdx? fun r => r.extraBytesParsed.isSome).getD 0

/-- The Extra Bytes check of one file. -/
def checkExtras (env : Externals) (inputFiles : List String) (refIdx : ℕ) (reference : ScanResult)
    (e : ScanResult × ℕ) : Except ValidateError Unit :=
  if e.2 = refIdx then .ok ()
  else if e.1.extraBytesSchemaHash = reference.extraBytesSchemaHash ∧
      e.1.numExtraBytes = reference.numExtraBytes then .ok ()
  else
    .error (.extraBytesMismatch (fileName inputFiles refIdx) (fileName inputFiles e.2)
      (extrasMismatchDetail env reference.extraBytesParsed reference.numExtraBytes e.1))

/-- The checks of the temporal index option. -/
def checkTemporal (firstFormat : UInt8) : Option UInt32 → Except ValidateError Unit
  | none => .ok ()
  | some stride =>
    if stride = 0 then .error (.invalidTemporalStride stride)
    else if formatHasGpsTime firstFormat then .ok ()
    else .error (.noGpsTime firstFormat)

/-- The Extra Bytes payload of the output, with the stats of all files merged where that works. -/
def mergedVlr (results : List ScanResult) (canonicalExtraBytesVlr : Option (List UInt8))
    (referenceParsed : Option ParsedExtraBytes) : Option (List UInt8) :=
  match canonicalExtraBytesVlr, referenceParsed with
  | some bytes, some _ =>
    some (mergeStatsIntoCanonical bytes (results.filterMap ScanResult.extraBytesParsed)).2
  | vlr, _ => vlr

/-- Check that all scanned files agree on CRS, point format and Extra Bytes, and derive the COPC
output point format. -/
def validate (env : Externals) (inputFiles : List String) (results : List ScanResult)
    (canonicalWkt canonicalExtraBytesVlr : Option (List UInt8)) (temporalIndex : Option UInt32) :
    Except ValidateError ValidatedInputs :=
  match results with
  | [] => .error .noResults
  | first :: rest => do
    let results := first :: rest
    let wkt := resolveWkt env results canonicalWkt
    let crsIdx := crsFileIndex results
    let referenceCrs := (results.getD crsIdx first).crs
    let firstFormat := first.pointFormatId
    results.zipIdx.forM (checkFile inputFiles crsIdx referenceCrs firstFormat wkt)
    let refIdx := referenceExtrasIdx results
    let reference := results.getD refIdx first
    results.zipIdx.forM (checkExtras env inputFiles refIdx reference)
    checkTemporal firstFormat temporalIndex
    .ok
      { wktCrs := wkt
        extraBytesVlr := mergedVlr results canonicalExtraBytesVlr reference.extraBytesParsed
        numExtraBytes := reference.numExtraBytes
        pointFormat := inputToCopcFormat firstFormat }

/-- Validation of what a scan found. -/
def ScanOutput.validate (env : Externals) (out : ScanOutput) (inputFiles : List String)
    (temporalIndex : Option UInt32) : Except ValidateError ValidatedInputs :=
  CopcConverter.validate env inputFiles out.results out.canonicalWkt out.canonicalExtraBytesVlr
    temporalIndex

end CopcConverter
