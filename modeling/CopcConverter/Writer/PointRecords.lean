import CopcConverter.Storage.TempBatches
import CopcConverter.Writer.Chunks

/-!
# Point records

The bytes of a point in the output.  The source encodes a point field by field into a record of
format 6, 7 or 8 with the extra bytes behind; here such a record is read back by the offsets that
the LAS format gives to the fields, with the colours only in the formats that have them.

A reader gets every field of a point that the output format has.  Of the return number and of the
number of returns it gets the low four bits, since that is the room the format gives them, and
colours are lost where there is no place for them.  When the records have the size that the header
announces, which needs the width of the extra bytes to be the announced one, the points of a chunk
are read back one after the other and nothing is left over.
-/

namespace CopcConverter

open RawPoint (numberAt ofLE_field)

/-! ## Sizes -/

/-- An output format: a COPC file has points of format 6, 7 or 8. -/
def IsCopcFormat (fmt : UInt8) : Prop := fmt = 6 ∨ fmt = 7 ∨ fmt = 8

/-- The size of a point record without extra bytes. -/
def baseRecordLength (fmt : UInt8) : UInt16 :=
  if fmt = 6 then 30 else if fmt = 7 then 36 else if fmt = 8 then 38 else 36

/-- The size of a point record in the output. -/
def pointRecordLength (fmt : UInt8) (numExtraBytes : UInt16) : UInt16 :=
  baseRecordLength fmt + numExtraBytes

/-- The size in the header, when the sum fits 16 bits. -/
lemma toNat_pointRecordLength {fmt : UInt8} (hfmt : IsCopcFormat fmt) {numExtraBytes : UInt16}
    (hwidth : 38 + numExtraBytes.toNat < 2 ^ 16) :
    (pointRecordLength fmt numExtraBytes).toNat =
      (baseRecordLength fmt).toNat + numExtraBytes.toNat := by
  have hbase : (baseRecordLength fmt).toNat ≤ 38 := by
    rcases hfmt with rfl | rfl | rfl <;> decide
  rw [pointRecordLength, UInt16.toNat_add]
  exact Nat.mod_eq_of_lt (by omega)

/-- An encoded point takes the bytes of its format and its extra bytes. -/
lemma length_encodePoint_eq {fmt : UInt8} (hfmt : IsCopcFormat fmt) (rp : RawPoint) :
    (encodePoint fmt rp).length = (baseRecordLength fmt).toNat + rp.extras.length := by
  rw [length_encodePoint]
  rcases hfmt with rfl | rfl | rfl <;> rfl

/-! ## Reading -/

/-- What the output keeps of a point. -/
def RawPoint.asWritten (fmt : UInt8) (rp : RawPoint) : RawPoint :=
  { rp with
    returnNumber := rp.returnNumber &&& 0x0F
    numberOfReturns := rp.numberOfReturns &&& 0x0F
    red := if fmt ≥ 7 then rp.red else 0
    green := if fmt ≥ 7 then rp.green else 0
    blue := if fmt ≥ 7 then rp.blue else 0
    nir := if fmt ≥ 8 then rp.nir else 0 }

/-- Decode a record by the offsets of its fields; the byte at 15 holds flags. -/
def decodePoint (fmt : UInt8) (rec : List UInt8) : RawPoint where
  x := (UInt32.ofNat (numberAt rec 0 4)).toInt32
  y := (UInt32.ofNat (numberAt rec 4 4)).toInt32
  z := (UInt32.ofNat (numberAt rec 8 4)).toInt32
  intensity := UInt16.ofNat (numberAt rec 12 2)
  returnNumber := UInt8.ofNat (numberAt rec 14 1) &&& 0x0F
  numberOfReturns := UInt8.ofNat (numberAt rec 14 1) >>> 4
  classification := UInt8.ofNat (numberAt rec 16 1)
  userData := UInt8.ofNat (numberAt rec 17 1)
  scanAngle := (UInt16.ofNat (numberAt rec 18 2)).toInt16
  pointSourceId := UInt16.ofNat (numberAt rec 20 2)
  gpsTime := UInt64.ofNat (numberAt rec 22 8)
  red := if fmt ≥ 7 then UInt16.ofNat (numberAt rec 30 2) else 0
  green := if fmt ≥ 7 then UInt16.ofNat (numberAt rec 32 2) else 0
  blue := if fmt ≥ 7 then UInt16.ofNat (numberAt rec 34 2) else 0
  nir := if fmt ≥ 8 then UInt16.ofNat (numberAt rec 36 2) else 0
  extras := rec.drop (baseRecordLength fmt).toNat

/-- Decode a given number of records of one size; there is nothing after them. -/
def decodePoints (fmt : UInt8) (size : ℕ) : ℕ → List UInt8 → Option (List RawPoint)
  | 0, bytes => if bytes.isEmpty then some [] else none
  | n + 1, bytes =>
    if size ≤ bytes.length then
      (decodePoints fmt size n (bytes.drop size)).map (decodePoint fmt (bytes.take size) :: ·)
    else none

/-! ## The round trip -/

/-- The two halves of the byte with the returns. -/
lemma returnByte_halves (rp : RawPoint) :
    returnByte rp &&& 0x0F = rp.returnNumber &&& 0x0F ∧
      returnByte rp >>> 4 = rp.numberOfReturns &&& 0x0F := by
  have hlow : ∀ a b : BitVec 8,
      ((a &&& 0x0F#8) ||| ((b &&& 0x0F#8) <<< 4)) &&& 0x0F#8 = a &&& 0x0F#8 := by
    intro a b
    ext i hi
    interval_cases i <;> simp
  have hhigh : ∀ a b : BitVec 8,
      ((a &&& 0x0F#8) ||| ((b &&& 0x0F#8) <<< 4)) >>> 4 = b &&& 0x0F#8 := by
    intro a b
    ext i hi
    interval_cases i <;> simp
  constructor
  · exact UInt8.toBitVec_inj.mp (hlow _ _)
  · exact UInt8.toBitVec_inj.mp (hhigh _ _)

/-- The fields that all formats share are read back. -/
lemma numberAt_encodePoint (fmt : UInt8) (rp : RawPoint) :
    numberAt (encodePoint fmt rp) 0 4 = rp.x.toUInt32.toNat ∧
      numberAt (encodePoint fmt rp) 4 4 = rp.y.toUInt32.toNat ∧
      numberAt (encodePoint fmt rp) 8 4 = rp.z.toUInt32.toNat ∧
      numberAt (encodePoint fmt rp) 12 2 = rp.intensity.toNat ∧
      numberAt (encodePoint fmt rp) 14 1 = (returnByte rp).toNat ∧
      numberAt (encodePoint fmt rp) 16 1 = rp.classification.toNat ∧
      numberAt (encodePoint fmt rp) 17 1 = rp.userData.toNat ∧
      numberAt (encodePoint fmt rp) 18 2 = rp.scanAngle.toUInt16.toNat ∧
      numberAt (encodePoint fmt rp) 20 2 = rp.pointSourceId.toNat ∧
      numberAt (encodePoint fmt rp) 22 8 = rp.gpsTime.toNat := by
  refine ⟨?_, ?_, ?_, ?_, rfl, rfl, rfl, ?_, ?_, ?_⟩
  · exact ofLE_field (w := 4) rp.x.toUInt32.toNat_lt
  · exact ofLE_field (w := 4) rp.y.toUInt32.toNat_lt
  · exact ofLE_field (w := 4) rp.z.toUInt32.toNat_lt
  · exact ofLE_field (w := 2) rp.intensity.toNat_lt
  · exact ofLE_field (w := 2) rp.scanAngle.toUInt16.toNat_lt
  · exact ofLE_field (w := 2) rp.pointSourceId.toNat_lt
  · exact ofLE_field (w := 8) rp.gpsTime.toNat_lt

/-- The colours of a format are read back. -/
lemma numberAt_colours (rp : RawPoint) {fmt : UInt8} (hfmt : fmt = 7 ∨ fmt = 8) :
    numberAt (encodePoint fmt rp) 30 2 = rp.red.toNat ∧
      numberAt (encodePoint fmt rp) 32 2 = rp.green.toNat ∧
      numberAt (encodePoint fmt rp) 34 2 = rp.blue.toNat := by
  rcases hfmt with rfl | rfl
  · exact ⟨ofLE_field (w := 2) rp.red.toNat_lt, ofLE_field (w := 2) rp.green.toNat_lt,
      ofLE_field (w := 2) rp.blue.toNat_lt⟩
  · exact ⟨ofLE_field (w := 2) rp.red.toNat_lt, ofLE_field (w := 2) rp.green.toNat_lt,
      ofLE_field (w := 2) rp.blue.toNat_lt⟩

/-- **A point is read back as it was written.** -/
theorem decodePoint_encodePoint {fmt : UInt8} (hfmt : IsCopcFormat fmt) (rp : RawPoint) :
    decodePoint fmt (encodePoint fmt rp) = rp.asWritten fmt := by
  obtain ⟨hx, hy, hz, hintensity, hreturns, hclass, huser, hangle, hsource, htime⟩ :=
    numberAt_encodePoint fmt rp
  obtain ⟨hlow, hhigh⟩ := returnByte_halves rp
  have hextras : (encodePoint fmt rp).drop (baseRecordLength fmt).toNat = rp.extras := by
    rcases hfmt with rfl | rfl | rfl <;> rfl
  have hnir : fmt ≥ 8 → numberAt (encodePoint fmt rp) 36 2 = rp.nir.toNat := by
    rcases hfmt with rfl | rfl | rfl
    · exact fun h => absurd h (by decide)
    · exact fun h => absurd h (by decide)
    · exact fun _ => ofLE_field (w := 2) rp.nir.toNat_lt
  have hcolours : fmt ≥ 7 → fmt = 7 ∨ fmt = 8 := by
    rcases hfmt with rfl | rfl | rfl
    · exact fun h => absurd h (by decide)
    · exact fun _ => Or.inl rfl
    · exact fun _ => Or.inr rfl
  rw [decodePoint, RawPoint.asWritten, hx, hy, hz, hintensity, hreturns, hclass, huser, hangle,
    hsource, htime, hextras]
  simp only [UInt32.ofNat_toNat, UInt16.ofNat_toNat, UInt8.ofNat_toNat, UInt64.ofNat_toNat,
    Int32.toInt32_toUInt32, Int16.toInt16_toUInt16, hlow, hhigh, RawPoint.mk.injEq, true_and,
    and_true]
  by_cases h7 : fmt ≥ 7
  · obtain ⟨hred, hgreen, hblue⟩ := numberAt_colours rp (hcolours h7)
    simp only [if_pos h7, hred, hgreen, hblue, UInt16.ofNat_toNat, true_and]
    by_cases h8 : fmt ≥ 8
    · rw [if_pos h8, if_pos h8, hnir h8, UInt16.ofNat_toNat]
    · rw [if_neg h8, if_neg h8]
  · have h78 : (7 : UInt8) ≤ 8 := by decide
    have h8 : ¬ fmt ≥ 8 := fun h8 => h7 (UInt8.le_trans h78 h8)
    simp only [if_neg h7, if_neg h8, true_and]

/-- The records of some points take the size in the header for each point. -/
lemma length_flatMap_encodePoint {fmt : UInt8} (hfmt : IsCopcFormat fmt) {numExtraBytes : UInt16}
    (hwidth : 38 + numExtraBytes.toNat < 2 ^ 16) {pts : List RawPoint}
    (hextras : ∀ p ∈ pts, p.extras.length = numExtraBytes.toNat) :
    (pts.flatMap (encodePoint fmt)).length =
      pts.length * (pointRecordLength fmt numExtraBytes).toNat := by
  have hsize : ∀ p ∈ pts, (encodePoint fmt p).length =
      (pointRecordLength fmt numExtraBytes).toNat := by
    intro p hp
    rw [length_encodePoint_eq hfmt, hextras p hp, toNat_pointRecordLength hfmt hwidth]
  rw [List.length_flatMap, List.map_congr_left hsize, List.map_const', List.sum_replicate,
    smul_eq_mul]

/-- **The points of a chunk are read back**, one after the other, when the records have the size
that the header gives. -/
theorem decodePoints_flatMap {fmt : UInt8} (hfmt : IsCopcFormat fmt) {numExtraBytes : UInt16}
    (hwidth : 38 + numExtraBytes.toNat < 2 ^ 16) {pts : List RawPoint}
    (hextras : ∀ p ∈ pts, p.extras.length = numExtraBytes.toNat) :
    decodePoints fmt (pointRecordLength fmt numExtraBytes).toNat pts.length
      (pts.flatMap (encodePoint fmt)) = some (pts.map (RawPoint.asWritten fmt)) := by
  induction pts with
  | nil => rfl
  | cons p pts ih =>
    have hsize : (encodePoint fmt p).length = (pointRecordLength fmt numExtraBytes).toNat := by
      rw [length_encodePoint_eq hfmt, hextras p List.mem_cons_self,
        toNat_pointRecordLength hfmt hwidth]
    have hle : (pointRecordLength fmt numExtraBytes).toNat ≤
        (encodePoint fmt p ++ pts.flatMap (encodePoint fmt)).length := by
      rw [List.length_append]
      omega
    rw [List.flatMap_cons, List.length_cons, decodePoints, if_pos hle, List.take_left' hsize,
      List.drop_left' hsize, ih fun q hq => hextras q (List.mem_cons_of_mem _ hq),
      decodePoint_encodePoint hfmt, Option.map_some, List.map_cons]

end CopcConverter
