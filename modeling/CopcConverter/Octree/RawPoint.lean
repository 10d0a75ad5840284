import Mathlib

/-!
# Raw points

The record that flows through the whole conversion: three coordinates as scaled 32-bit integers, the
attributes of the LAS point formats 6 to 8, and the extra bytes of the file.  It is made when an
input point is read, it is written to the temporary files and read back, it is moved between the
nodes of the octree, and it is encoded into the output.  No stage but the last one looks at anything
but its coordinates.

The GPS time is kept as its 64 bits: the pipeline moves it around and never computes with it, and
only the writer compares times.  The size of a record on disk depends on the number of extra bytes
alone, and it is never zero, so that buffer sizes divided by it make sense.
-/

namespace CopcConverter

/-- A raw point stored as scaled integer coordinates plus attributes. -/
structure RawPoint where
  x : Int32
  y : Int32
  z : Int32
  intensity : UInt16
  returnNumber : UInt8
  numberOfReturns : UInt8
  classification : UInt8
  scanAngle : Int16
  userData : UInt8
  pointSourceId : UInt16
  /-- The bits of the `f64`. -/
  gpsTime : UInt64
  red : UInt16
  green : UInt16
  blue : UInt16
  nir : UInt16
  /-- The trailing Extra Bytes of the record. -/
  extras : List UInt8
  deriving DecidableEq, Inhabited

namespace RawPoint

/-- Size of the fixed (non-extras) portion of the on-disk record. -/
def baseByteSize : ℕ := 4 + 4 + 4 + 2 + 1 + 1 + 1 + 2 + 1 + 2 + 8 + 2 + 2 + 2 + 2

/-- Total on-disk record size for the given extras width. -/
def recordSize (numExtraBytes : UInt16) : ℕ := baseByteSize + numExtraBytes.toNat

lemma recordSize_pos (numExtraBytes : UInt16) : 0 < recordSize numExtraBytes := by
  unfold recordSize baseByteSize
  omega

end RawPoint

end CopcConverter
