import CopcConverter.Foundations.Binary64
import CopcConverter.Foundations.Bytes
import CopcConverter.Foundations.Utf8

/-!
# Coordinate reference systems of the input files

What identifies the coordinate system of a file is a hash of its WKT text, or else the codes of its
GeoTIFF record.  Two WKT texts are compared by their hashes and two records by their horizontal
codes, where different vertical codes are only worth a warning; when one file has a text and the
other one a record, the comparison reads the codes in the canonical WKT text.

Reading codes from a text is a best effort: the text is split at the first keyword of a vertical
system, and the number at the end of either part is taken for its code.  The number is read
backwards in 16-bit arithmetic with checks for overflow, exactly as here.
-/

namespace CopcConverter

/-- What the code takes from its libraries: the default hasher as a function of the bytes written to
it, the registry of CRS definitions, and the debug formatting of strings and floats. -/
structure Externals where
  hasher : List UInt8 → UInt64
  /-- The WKT text that the registry has for an EPSG code. -/
  fromCode : UInt16 → Option (List UInt8)
  debugStr : List UInt8 → String
  debugF64 : F64 → String

/-- Per-file CRS identity. -/
inductive CrsKind where
  /-- Hash of the WKT CRS record. -/
  | wktHash (hash : UInt64)
  /-- GeoTIFF EPSG codes: horizontal, optional vertical. -/
  | geoTiffEpsg (horizontal : UInt16) (vertical : Option UInt16)
  deriving DecidableEq, Repr

/-- Hash of a byte payload. -/
def bytesHash (env : Externals) (bytes : List UInt8) : UInt64 := env.hasher bytes

/-! ## The EPSG code of a WKT text -/

/-- The codes taken for EPSG codes. -/
def inEpsgRange (code : UInt16) : Bool := 1024 ≤ code && code < 32767

def isAsciiWhitespace (b : UInt8) : Bool := b = 32 || b = 9 || b = 10 || b = 12 || b = 13

def isAsciiDigit (b : UInt8) : Bool := 48 ≤ b && b ≤ 57

/-- A product or sum that must fit `u16`. -/
def checkedU16 (n : ℕ) : Option ℕ := if n < 2 ^ 16 then some n else none

/-- The digits met so far, read backwards: the code, the power of the next digit and whether there
was a digit at all. -/
def trailingCodeFrom : List UInt8 → ℕ → ℕ → Bool → Option UInt16
  | [], code, _, started => if started then some (UInt16.ofNat code) else none
  | byte :: rest, code, power, started =>
    if isAsciiDigit byte then do
      let term ← checkedU16 (power * (byte.toNat - 48))
      let code ← checkedU16 (code + term)
      let power ← checkedU16 (power * 10)
      trailingCodeFrom rest code power true
    else if started then some (UInt16.ofNat code)
    else trailingCodeFrom rest code power false

/-- The number at the end of a text, within its last ten bytes. -/
def trailingCode (bytes : List UInt8) : Option UInt16 :=
  trailingCodeFrom ((Bytes.trimEnd isAsciiWhitespace bytes).reverse.take 10) 0 1 false

/-- The text before the first vertical CRS keyword and the text after it. -/
def splitVertical (wkt : List UInt8) : List UInt8 × Option (List UInt8) :=
  match Bytes.splitOnce (Bytes.ascii "VERTCRS") wkt with
  | some split => (split.1, some split.2)
  | none =>
    match Bytes.splitOnce (Bytes.ascii "VERTICALCRS") wkt with
    | some split => (split.1, some split.2)
    | none =>
      match Bytes.splitOnce (Bytes.ascii "VERT_CS") wkt with
      | some split => (split.1, some split.2)
      | none => (wkt, none)

/-- Best-effort EPSG code parse from WKT-CRS bytes: the horizontal and the vertical code. -/
def getEpsgFromWktCrsBytes (bytes : List UInt8) : Option (UInt16 × Option UInt16) :=
  let parts := splitVertical (Utf8.lossy bytes)
  match trailingCode parts.1 with
  | none => none
  | some horizontal =>
    if inEpsgRange horizontal then
      some (horizontal, (parts.2.bind trailingCode).filter inEpsgRange)
    else none

/-! ## Comparing two files -/

/-- Two GeoTIFF tuples: whether the horizontal codes agree, and whether a vertical difference is
dropped. -/
def epsgCompatible (ah : UInt16) (av : Option UInt16) (bh : UInt16) (bv : Option UInt16) :
    Bool × Bool :=
  if ah = bh ∧ av = bv then (true, false)
  else if ah = bh then (true, true)
  else (false, false)

/-- Compare two `CrsKind` values, using the canonical WKT when the kinds are mixed: whether they are
equal, and whether a vertical component was dropped. -/
def crsKindsCompatible (a b : CrsKind) (canonicalWkt : Option (List UInt8)) : Bool × Bool :=
  match a, b with
  | .wktHash ha, .wktHash hb => (ha = hb, false)
  | .geoTiffEpsg ah av, .geoTiffEpsg bh bv => epsgCompatible ah av bh bv
  | .wktHash _, .geoTiffEpsg gh gv | .geoTiffEpsg gh gv, .wktHash _ =>
    match canonicalWkt with
    | none => (false, false)
    | some wkt =>
      match getEpsgFromWktCrsBytes wkt with
      | none => (false, false)
      | some (wh, wv) => epsgCompatible wh wv gh gv

/-- The CRS comparison of the reference file with another one. -/
def crsEqual (referenceCrs crs : Option CrsKind) (canonicalWkt : Option (List UInt8)) :
    Bool × Bool :=
  match referenceCrs, crs with
  | none, none => (true, false)
  | some a, some b => crsKindsCompatible a b canonicalWkt
  | _, _ => (false, false)

end CopcConverter
