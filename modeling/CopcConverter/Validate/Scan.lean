import CopcConverter.Validate.ExtraBytes

/-!
# The scan pass

The first pass reads the headers of all input files.  What it keeps of every file is the identity of
its coordinate system (a hash of the WKT text, or the keys of a GeoTIFF record), its parsed Extra
Bytes record with the hash of the schema, the width of the extra bytes, and its point format.  Over
all files it keeps one WKT text and one Extra Bytes payload, each from the first file that has one.
Bounds, scales and counts are left to the later stages.

A file that went through the pass is a `ScannedFile`: a result together with the payloads that it
came from, and what relates them.  So later modules can speak about the payloads of files that were
accepted by their results alone.
-/

namespace CopcConverter

/-- A variable-length record, plain or extended. -/
structure Vlr where
  userId : List UInt8
  recordId : UInt16
  data : List UInt8

/-- The GeoTIFF keys that the scan reads. -/
structure GeoTiffCrs where
  modelType : Option UInt16
  projectedCrs : Option UInt16
  geodeticCrs : Option UInt16
  verticalCrs : Option UInt16

/-- What the scan reads of a file header. -/
structure LasHeader where
  /-- The WKT CRS record, when there is one. -/
  wktCrsBytes : Option (List UInt8)
  /-- The GeoTIFF CRS, when there is one and it can be read. -/
  geotiffCrs : Option GeoTiffCrs
  allVlrs : List Vlr
  /-- Trailing extra-byte width of the point format. -/
  extraBytes : UInt16
  pointFormat : UInt8

/-- Per-file results from the scan phase, as far as validation uses them. -/
structure ScanResult where
  crs : Option CrsKind
  extraBytesParsed : Option ParsedExtraBytes
  extraBytesSchemaHash : Option UInt64
  numExtraBytes : UInt16
  pointFormatId : UInt8

/-- The CRS of a file: WKT first, then GeoTIFF; and the WKT text. -/
def scanCrs (env : Externals) (header : LasHeader) : Option CrsKind × Option (List UInt8) :=
  match header.wktCrsBytes with
  | some wkt => (some (.wktHash (bytesHash env wkt)), some wkt)
  | none =>
    match header.geotiffCrs with
    | some geotiff =>
      let horizontal := match geotiff.modelType with
        | some 1 => geotiff.projectedCrs
        | some 2 | some 3 => geotiff.geodeticCrs
        | _ => none
      (horizontal.map fun h => .geoTiffEpsg h geotiff.verticalCrs, none)
    | none => (none, none)

/-- The payload of the Extra Bytes record. -/
def extraBytesPayload (header : LasHeader) : Option (List UInt8) :=
  (header.allVlrs.find? fun v =>
    Bytes.trimEnd (fun b => b = 0) v.userId = Bytes.ascii "LASF_Spec" &&
      v.recordId = 4).map Vlr.data

/-- A scanned file: its result and the payloads it came from. -/
structure ScannedFile (env : Externals) where
  result : ScanResult
  wkt : Option (List UInt8)
  extraBytesVlr : Option (List UInt8)
  /-- The WKT identity is the hash of the text. -/
  crs_wkt : ∀ h, result.crs = some (.wktHash h) ↔ ∃ w, wkt = some w ∧ bytesHash env w = h
  /-- The parsed record comes from the payload. -/
  parsed : ∀ bytes, extraBytesVlr = some bytes →
    ∃ p, ParsedExtraBytes.parse bytes = .ok p ∧ result.extraBytesParsed = some p
  undeclared : extraBytesVlr = none → result.extraBytesParsed = none
  hashed : result.extraBytesSchemaHash = result.extraBytesParsed.map (schemaHash env)

variable {env : Externals}

/-- The identity of a WKT file is the hash of its text. -/
lemma scanCrs_wkt (env : Externals) (header : LasHeader) (h : UInt64) :
    (scanCrs env header).1 = some (.wktHash h) ↔
      ∃ w, (scanCrs env header).2 = some w ∧ bytesHash env w = h := by
  unfold scanCrs
  cases header.wktCrsBytes with
  | some wkt => simp
  | none =>
    cases header.geotiffCrs with
    | some geotiff => simp
    | none => simp

/-- Scan one file; an Extra Bytes record that does not parse is an error. -/
def scanFile (env : Externals) (header : LasHeader) : Except String (ScannedFile env) :=
  match hvlr : extraBytesPayload header with
  | none => .ok
    { result :=
        { crs := (scanCrs env header).1
          extraBytesParsed := none
          extraBytesSchemaHash := none
          numExtraBytes := header.extraBytes
          pointFormatId := header.pointFormat }
      wkt := (scanCrs env header).2
      extraBytesVlr := none
      crs_wkt := scanCrs_wkt env header
      parsed := fun _ h => by cases h
      undeclared := fun _ => rfl
      hashed := rfl }
  | some bytes =>
    match hparse : ParsedExtraBytes.parse bytes with
    | .error e => .error e
    | .ok p => .ok
      { result :=
          { crs := (scanCrs env header).1
            extraBytesParsed := some p
            extraBytesSchemaHash := some (schemaHash env p)
            numExtraBytes := header.extraBytes
            pointFormatId := header.pointFormat }
        wkt := (scanCrs env header).2
        extraBytesVlr := some bytes
        crs_wkt := scanCrs_wkt env header
        parsed := fun bytes' h => by
          obtain rfl := Option.some.inj h
          exact ⟨p, hparse, rfl⟩
        undeclared := fun h => by cases h
        hashed := rfl }

/-- Output of the scan pass: the per-file results and the canonical payloads. -/
structure ScanOutput where
  results : List ScanResult
  canonicalWkt : Option (List UInt8)
  canonicalExtraBytesVlr : Option (List UInt8)

/-- Keep the first WKT text and the first Extra Bytes payload. -/
def aggregate (files : List (ScannedFile env)) : ScanOutput where
  results := files.map ScannedFile.result
  canonicalWkt := files.findSome? ScannedFile.wkt
  canonicalExtraBytesVlr := files.findSome? ScannedFile.extraBytesVlr

/-- Pass 1: scan all files. -/
def scan (env : Externals) (headers : List LasHeader) : Except String ScanOutput := do
  let files ← headers.mapM (scanFile env)
  .ok (aggregate files)

end CopcConverter
