import CopcConverter.Foundations.Bytes
import CopcConverter.Foundations.Reader
import CopcConverter.Octree.RawPoint

/-!
# Batches in temp files

Points that do not fit into memory go through scratch files.  Such a file is a sequence of batches:
a point count of four bytes, then the records of the points, each of one size.  With compression
every batch is a frame of its own; the frame format is a parameter, with the law that decoding some
frames gives their payloads one after the other.

Batches are read back through short reads into one buffer that is used again and again: however few
bytes a read delivers, and however many points are read at a time, all points come back, field for
field and in order.  Counting goes by the headers alone and seeks past the payloads, or decodes and
throws away what is compressed, and finds the number of the points.  The stores, the chunk files and
the spilled sub-octants all rest on this format.
-/

namespace CopcConverter

open Reader

/-! ## Records -/

namespace RawPoint

/-- The record of a point, field after field. -/
def toRecord (p : RawPoint) : List UInt8 :=
  Bytes.toLE 4 p.x.toUInt32.toNat ++ (Bytes.toLE 4 p.y.toUInt32.toNat ++
    (Bytes.toLE 4 p.z.toUInt32.toNat ++ (Bytes.toLE 2 p.intensity.toNat ++
    ([p.returnNumber, p.numberOfReturns, p.classification] ++
    (Bytes.toLE 2 p.scanAngle.toUInt16.toNat ++ ([p.userData] ++
    (Bytes.toLE 2 p.pointSourceId.toNat ++ (Bytes.toLE 8 p.gpsTime.toNat ++
    (Bytes.toLE 2 p.red.toNat ++ (Bytes.toLE 2 p.green.toNat ++
    (Bytes.toLE 2 p.blue.toNat ++ (Bytes.toLE 2 p.nir.toNat ++ p.extras))))))))))))

/-- The number in the bytes of a record from an offset on. -/
def numberAt (rec : List UInt8) (off width : ℕ) : ℕ := Bytes.ofLE (Bytes.slice rec off width)

/-- Decode a record by the offsets of its fields. -/
def fromRecord (rec : List UInt8) : RawPoint where
  x := (UInt32.ofNat (numberAt rec 0 4)).toInt32
  y := (UInt32.ofNat (numberAt rec 4 4)).toInt32
  z := (UInt32.ofNat (numberAt rec 8 4)).toInt32
  intensity := UInt16.ofNat (numberAt rec 12 2)
  returnNumber := UInt8.ofNat (numberAt rec 14 1)
  numberOfReturns := UInt8.ofNat (numberAt rec 15 1)
  classification := UInt8.ofNat (numberAt rec 16 1)
  scanAngle := (UInt16.ofNat (numberAt rec 17 2)).toInt16
  userData := UInt8.ofNat (numberAt rec 19 1)
  pointSourceId := UInt16.ofNat (numberAt rec 20 2)
  gpsTime := UInt64.ofNat (numberAt rec 22 8)
  red := UInt16.ofNat (numberAt rec 30 2)
  green := UInt16.ofNat (numberAt rec 32 2)
  blue := UInt16.ofNat (numberAt rec 34 2)
  nir := UInt16.ofNat (numberAt rec 36 2)
  extras := rec.drop baseByteSize

/-- A record is as long as its extras make it. -/
lemma length_toRecord (p : RawPoint) : p.toRecord.length = baseByteSize + p.extras.length := by
  simp only [toRecord, List.length_append, Bytes.length_toLE, List.length_cons, List.length_nil,
    baseByteSize]
  omega

/-- A number of a field is read back. -/
lemma ofLE_field {w n : ℕ} (h : n < 256 ^ w) : Bytes.ofLE (Bytes.toLE w n) = n := by
  rw [Bytes.ofLE_toLE, Nat.mod_eq_of_lt h]

/-- Decoding a record gives the point back, field for field. -/
theorem fromRecord_toRecord (p : RawPoint) : fromRecord p.toRecord = p := by
  have hx : numberAt p.toRecord 0 4 = p.x.toUInt32.toNat :=
    ofLE_field (w := 4) p.x.toUInt32.toNat_lt
  have hy : numberAt p.toRecord 4 4 = p.y.toUInt32.toNat :=
    ofLE_field (w := 4) p.y.toUInt32.toNat_lt
  have hz : numberAt p.toRecord 8 4 = p.z.toUInt32.toNat :=
    ofLE_field (w := 4) p.z.toUInt32.toNat_lt
  have hintensity : numberAt p.toRecord 12 2 = p.intensity.toNat :=
    ofLE_field (w := 2) p.intensity.toNat_lt
  have hreturn : numberAt p.toRecord 14 1 = p.returnNumber.toNat := rfl
  have hreturns : numberAt p.toRecord 15 1 = p.numberOfReturns.toNat := rfl
  have hclass : numberAt p.toRecord 16 1 = p.classification.toNat := rfl
  have hangle : numberAt p.toRecord 17 2 = p.scanAngle.toUInt16.toNat :=
    ofLE_field (w := 2) p.scanAngle.toUInt16.toNat_lt
  have huser : numberAt p.toRecord 19 1 = p.userData.toNat := rfl
  have hsource : numberAt p.toRecord 20 2 = p.pointSourceId.toNat :=
    ofLE_field (w := 2) p.pointSourceId.toNat_lt
  have htime : numberAt p.toRecord 22 8 = p.gpsTime.toNat := ofLE_field (w := 8) p.gpsTime.toNat_lt
  have hred : numberAt p.toRecord 30 2 = p.red.toNat := ofLE_field (w := 2) p.red.toNat_lt
  have hgreen : numberAt p.toRecord 32 2 = p.green.toNat := ofLE_field (w := 2) p.green.toNat_lt
  have hblue : numberAt p.toRecord 34 2 = p.blue.toNat := ofLE_field (w := 2) p.blue.toNat_lt
  have hnir : numberAt p.toRecord 36 2 = p.nir.toNat := ofLE_field (w := 2) p.nir.toNat_lt
  have hextras : p.toRecord.drop baseByteSize = p.extras := rfl
  rw [fromRecord, hx, hy, hz, hintensity, hreturn, hreturns, hclass, hangle, huser, hsource, htime,
    hred, hgreen, hblue, hnir, hextras]
  simp only [UInt32.ofNat_toNat, UInt16.ofNat_toNat, UInt8.ofNat_toNat, UInt64.ofNat_toNat,
    Int32.toInt32_toUInt32, Int16.toInt16_toUInt16]

end RawPoint

/-! ## Writing -/

/-- The codec of the temp files. -/
inductive TempCompression where
  | none
  | lz4

/-- A frame format: an encoder of payloads, and a decoder of frames that sits on a reader. -/
structure FrameCodec where
  encode : List UInt8 → List UInt8
  Decoder : Type → Type
  start : {σ : Type} → σ → Decoder σ
  read : {σ : Type} → ReadFn σ → ReadFn (Decoder σ)

/-- Decoding some frames gives the payload of one after the other, with nothing at the end of
each. -/
def FrameCodec.Lawful (lz4 : FrameCodec) : Prop :=
  ∀ {σ : Type} (read : ReadFn σ) (s : σ) (payloads : List (List UInt8)),
    (∀ p ∈ payloads, p ≠ []) → Delivers read s (payloads.flatMap lz4.encode) →
    DeliversFrames (lz4.read read) (lz4.start s) payloads

/-- The bytes of a payload in a file. -/
def TempCompression.frame (lz4 : FrameCodec) : TempCompression → List UInt8 → List UInt8
  | .none => id
  | .lz4 => lz4.encode

/-- The records of some points in a buffer made for records of one size; extras that do not fit are
an error. -/
def writeBulk (numExtraBytes : UInt16) (points : List RawPoint) : Option (List UInt8) :=
  let size := RawPoint.recordSize numExtraBytes * points.length
  let bytes := points.flatMap RawPoint.toRecord
  if bytes.length ≤ size then some (bytes ++ List.replicate (size - bytes.length) 0) else none

/-- What is appended to a file for a batch; the count keeps its low 32 bits. -/
def writeTempBatch (lz4 : FrameCodec) (codec : TempCompression) (numExtraBytes : UInt16)
    (points : List RawPoint) : Option (List UInt8) :=
  (writeBulk numExtraBytes points).map fun payload =>
    codec.frame lz4 (Bytes.toLE 4 points.length ++ payload)

/-! ## Reading -/

/-- The number of points that are read at once. -/
def maxPointsPerRead : ℕ := 65536

/-- Consecutive pieces of one size; a shorter rest is left out. -/
def chunksExact (size : ℕ) (bytes : List UInt8) : List (List UInt8) :=
  if 0 < size ∧ size ≤ bytes.length then
    bytes.take size :: chunksExact size (bytes.drop size)
  else []
termination_by bytes.length
decreasing_by
  rw [List.length_drop]
  omega

/-- A buffer of at least the given length. -/
def growTo (need : ℕ) (buf : List UInt8) : List UInt8 :=
  if buf.length < need then buf ++ List.replicate (need - buf.length) 0 else buf

/-- What goes through the loops: the reader, the buffer that is used again, and what the consumer
of the points has made of them. -/
structure BatchState (σ τ : Type) where
  reader : σ
  buf : List UInt8
  acc : τ

section Read

variable {σ τ : Type} (read : ReadFn σ) (numExtraBytes : UInt16) (f : τ → RawPoint → Option τ)

/-- Read the remaining points of a batch, some at a time. -/
def readPayload (remaining : ℕ) (st : BatchState σ τ) : Option (BatchState σ τ) :=
  if remaining = 0 then some st
  else
    let take := min remaining maxPointsPerRead
    let need := take * RawPoint.recordSize numExtraBytes
    let r := readExact read need st.reader
    r.1.bind fun data =>
      -- the bytes overwrite the front of the buffer, whose rest is left from earlier reads
      let buf := data ++ (growTo need st.buf).drop need
      ((chunksExact (RawPoint.recordSize numExtraBytes) (buf.take need)).foldlM
        (fun acc rec => f acc (RawPoint.fromRecord rec)) st.acc).bind fun acc =>
          readPayload (remaining - take) ⟨r.2, buf, acc⟩
termination_by remaining
decreasing_by
  rw [maxPointsPerRead]
  omega

/-- Read batch after batch; the end is where no further count can be read. -/
def forEachPointInBatches : ℕ → BatchState σ τ → Option (BatchState σ τ)
  | 0, _ => none
  | fuel + 1, st =>
    let r := readExact read 4 st.reader
    r.1.elim (some st) fun header =>
      (readPayload read numExtraBytes f (Bytes.ofLE header) { st with reader := r.2 }).bind
        (forEachPointInBatches fuel)

end Read

/-- The capacity of a buffer in front of a file. -/
def bufReaderCapacity : ℕ := 8192

/-- Give every point of a file to a consumer, which may fail. -/
def streamTempBatches (lz4 : FrameCodec) (codec : TempCompression) (numExtraBytes : UInt16)
    {σ τ : Type} (read : ReadFn σ) (s : σ) (f : τ → RawPoint → Option τ) (init : τ) (fuel : ℕ) :
    Option τ :=
  match codec with
  | .none => (forEachPointInBatches (readBuffered bufReaderCapacity read) numExtraBytes f fuel
      ⟨⟨[], s⟩, [], init⟩).map BatchState.acc
  | .lz4 => (forEachPointInBatches
      (joinFrames (lz4.read (readBuffered bufReaderCapacity read))) numExtraBytes f fuel
      ⟨lz4.start ⟨[], s⟩, [], init⟩).map BatchState.acc

/-- All points of a file. -/
def readTempBatches (lz4 : FrameCodec) (codec : TempCompression) (numExtraBytes : UInt16)
    {σ : Type} (read : ReadFn σ) (s : σ) (fuel : ℕ) : Option (List RawPoint) :=
  streamTempBatches lz4 codec numExtraBytes read s (fun out p => some (out ++ [p])) [] fuel

/-! ## Counting -/

/-- Add up the counts, seeking past the payloads. -/
def countSeeking (numExtraBytes : UInt16) : ℕ → FileHandle → UInt64 → Option UInt64
  | 0, _, _ => none
  | fuel + 1, f, total =>
    let r := readExact FileHandle.readSome 4 f
    r.1.elim (some total) fun header =>
      countSeeking numExtraBytes fuel
        (r.2.seek (Bytes.ofLE header * RawPoint.recordSize numExtraBytes))
        (total + UInt64.ofNat (Bytes.ofLE header))

/-- The size of the buffer for bytes that are thrown away. -/
def sinkSize : ℕ := 4096

/-- Read bytes and throw them away. -/
def skipBytes {σ : Type} (read : ReadFn σ) (remaining : ℕ) (s : σ) : Option σ :=
  if remaining = 0 then some s
  else
    let r := readExact read (min remaining sinkSize) s
    r.1.bind fun _ => skipBytes read (remaining - min remaining sinkSize) r.2
termination_by remaining
decreasing_by
  rw [sinkSize]
  omega

/-- Add up the counts, decoding the payloads. -/
def countDecoding {σ : Type} (read : ReadFn σ) (numExtraBytes : UInt16) :
    ℕ → σ → UInt64 → Option UInt64
  | 0, _, _ => none
  | fuel + 1, s, total =>
    let r := readExact read 4 s
    r.1.elim (some total) fun header =>
      (skipBytes read (Bytes.ofLE header * RawPoint.recordSize numExtraBytes) r.2).bind fun s =>
        countDecoding read numExtraBytes fuel s (total + UInt64.ofNat (Bytes.ofLE header))

/-- The number of points in a file; a file that does not exist has none. -/
def countTempFilePoints (lz4 : FrameCodec) (codec : TempCompression) (numExtraBytes : UInt16)
    (file : Option FileHandle) (fuel : ℕ) : Option UInt64 :=
  match file, codec with
  | none, _ => some 0
  | some f, .none => countSeeking numExtraBytes fuel f 0
  | some f, .lz4 => countDecoding
      (joinFrames (lz4.read (readBuffered bufReaderCapacity FileHandle.readSome))) numExtraBytes
      fuel (lz4.start ⟨[], f⟩) 0

/-! ## What a batch looks like -/

/-- Every point carries the given number of extra bytes. -/
def Carries (numExtraBytes : UInt16) (points : List RawPoint) : Prop :=
  ∀ p ∈ points, p.extras.length = numExtraBytes.toNat

instance (numExtraBytes : UInt16) (points : List RawPoint) :
    Decidable (Carries numExtraBytes points) :=
  inferInstanceAs (Decidable (∀ p ∈ points, p.extras.length = numExtraBytes.toNat))

/-- A count and the records. -/
def batchBytes (points : List RawPoint) : List UInt8 :=
  Bytes.toLE 4 points.length ++ points.flatMap RawPoint.toRecord

section Batch

variable {numExtraBytes : UInt16} {points : List RawPoint}

lemma length_toRecord_of_carries (h : Carries numExtraBytes points) {p : RawPoint}
    (hp : p ∈ points) : p.toRecord.length = RawPoint.recordSize numExtraBytes := by
  rw [RawPoint.length_toRecord, h p hp, RawPoint.recordSize]

lemma length_records (h : Carries numExtraBytes points) :
    (points.flatMap RawPoint.toRecord).length =
      points.length * RawPoint.recordSize numExtraBytes := by
  have hall : ∀ n ∈ points.map fun p => p.toRecord.length,
      n = RawPoint.recordSize numExtraBytes := by
    intro n hn
    obtain ⟨p, hp, rfl⟩ := List.mem_map.mp hn
    exact length_toRecord_of_carries h hp
  rw [List.length_flatMap, List.sum_eq_card_nsmul _ _ hall, List.length_map, smul_eq_mul]

lemma writeTempBatch_eq (lz4 : FrameCodec) (codec : TempCompression)
    (h : Carries numExtraBytes points) :
    writeTempBatch lz4 codec numExtraBytes points = some (codec.frame lz4 (batchBytes points)) := by
  have hlen := length_records h
  rw [Nat.mul_comm] at hlen
  rw [writeTempBatch, writeBulk, if_pos hlen.le, hlen, Nat.sub_self, List.replicate_zero,
    List.append_nil, Option.map_some, batchBytes]

/-- A batch holds its count at least. -/
lemma batchBytes_ne_nil (points : List RawPoint) : batchBytes points ≠ [] := by
  intro h
  have hlen := congrArg List.length h
  rw [batchBytes, List.length_append, Bytes.length_toLE] at hlen
  exact absurd hlen (by simp)

/-- Pieces of one size are found again. -/
lemma chunksExact_flatten {size : ℕ} (hsize : 0 < size) (ls : List (List UInt8))
    (h : ∀ l ∈ ls, l.length = size) : chunksExact size ls.flatten = ls := by
  induction ls with
  | nil =>
    rw [chunksExact, if_neg]
    rintro ⟨-, hle⟩
    exact absurd hsize (not_lt.mpr hle)
  | cons l ls ih =>
    have hl := h l List.mem_cons_self
    rw [List.flatten_cons, chunksExact, if_pos ⟨hsize, by rw [List.length_append]; omega⟩,
      List.take_left' hl, List.drop_left' hl, ih fun l' hl' => h l' (List.mem_cons_of_mem _ hl')]

/-- Decoding the records of some points hands the points on. -/
lemma foldlM_records {τ : Type} (f : τ → RawPoint → Option τ) (h : Carries numExtraBytes points)
    (acc : τ) :
    (chunksExact (RawPoint.recordSize numExtraBytes) (points.flatMap RawPoint.toRecord)).foldlM
      (fun acc rec => f acc (RawPoint.fromRecord rec)) acc = points.foldlM f acc := by
  have hrecords : ∀ l ∈ points.map RawPoint.toRecord,
      l.length = RawPoint.recordSize numExtraBytes := by
    intro l hl
    obtain ⟨p, hp, rfl⟩ := List.mem_map.mp hl
    exact length_toRecord_of_carries h hp
  rw [List.flatMap_def, chunksExact_flatten (RawPoint.recordSize_pos _) _ hrecords,
    List.foldlM_map]
  simp only [RawPoint.fromRecord_toRecord]

end Batch

/-! ## Reading gives the points back -/

section ReadBack

variable {σ τ : Type} {read : ReadFn σ} {numExtraBytes : UInt16} {f : τ → RawPoint → Option τ}

/-- The points of a batch are handed on in order, and the reader comes to the bytes behind them. -/
lemma readPayload_spec {points : List RawPoint} (hcarries : Carries numExtraBytes points)
    {st : BatchState σ τ} {rest : List UInt8}
    (h : Delivers read st.reader (points.flatMap RawPoint.toRecord ++ rest)) :
    (readPayload read numExtraBytes f points.length st).map BatchState.acc =
        points.foldlM f st.acc ∧
      ∀ st', readPayload read numExtraBytes f points.length st = some st' →
        Delivers read st'.reader rest := by
  induction hn : points.length using Nat.strongRecOn generalizing points st with
  | ind n ih =>
    rw [readPayload]
    split_ifs with hzero
    · obtain rfl := List.length_eq_zero_iff.mp (hn.trans hzero)
      refine ⟨rfl, fun st' hst' => ?_⟩
      obtain rfl := Option.some.inj hst'
      exact h
    · obtain ⟨k, hk⟩ : ∃ k, k = min n maxPointsPerRead := ⟨_, rfl⟩
      have hkn : 0 < k ∧ k ≤ n := by
        rw [maxPointsPerRead] at hk
        omega
      have htake : (points.take k).length = k := by
        rw [List.length_take]
        omega
      have hfront : Carries numExtraBytes (points.take k) :=
        fun p hp => hcarries p (List.mem_of_mem_take hp)
      have hback : Carries numExtraBytes (points.drop k) :=
        fun p hp => hcarries p (List.mem_of_mem_drop hp)
      have hneed := length_records hfront
      rw [htake] at hneed
      have hsplit : points.flatMap RawPoint.toRecord = (points.take k).flatMap RawPoint.toRecord ++
          (points.drop k).flatMap RawPoint.toRecord := by
        rw [← List.flatMap_append, List.take_append_drop]
      rw [hsplit, List.append_assoc] at h
      obtain ⟨reader, hread, hdel⟩ := (keeps_delivers read).readExact h
      rw [hneed] at hread
      have hfold : points.foldlM f st.acc =
          ((points.take k).foldlM f st.acc).bind fun acc => (points.drop k).foldlM f acc := by
        conv_lhs => rw [← List.take_append_drop k points]
        exact List.foldlM_append
      simp only [← hk, hread, Option.bind_some, List.take_left' hneed, foldlM_records f hfront,
        hfold]
      cases (points.take k).foldlM f st.acc with
      | none => exact ⟨rfl, fun st' hst' => absurd hst' (by simp)⟩
      | some acc =>
        simp only [Option.bind_some]
        refine ih (n - k) (by omega) hback ?_ (by rw [List.length_drop, hn])
        exact hdel

/-- The count of a batch is read, and its records come next. -/
lemma readExact_header {left : σ → List UInt8 → Prop} (hkeeps : Keeps read left) {s : σ}
    {points : List RawPoint} {batches : List (List RawPoint)} (hlen : points.length < 2 ^ 32)
    (h : left s ((points :: batches).flatMap batchBytes)) :
    ∃ header s', readExact read 4 s = (some header, s') ∧ Bytes.ofLE header = points.length ∧
      left s' (points.flatMap RawPoint.toRecord ++ batches.flatMap batchBytes) := by
  rw [List.flatMap_cons, batchBytes, List.append_assoc] at h
  obtain ⟨s', hread, hleft⟩ := hkeeps.readExact h
  have hlt : points.length < 256 ^ 4 := hlen
  rw [Bytes.length_toLE] at hread
  exact ⟨_, s', hread, by rw [Bytes.ofLE_toLE, Nat.mod_eq_of_lt hlt], hleft⟩

/-- Behind the last batch no count is read. -/
lemma readExact_end {left : σ → List UInt8 → Prop} (hkeeps : Keeps read left) {s : σ}
    (h : left s (List.flatMap batchBytes [])) : (readExact read 4 s).1 = none :=
  hkeeps.readExact_of_lt h (by decide)

/-- All points of all batches are handed on in order, when the rounds suffice. -/
lemma forEachPointInBatches_spec {batches : List (List RawPoint)}
    (hlen : ∀ b ∈ batches, b.length < 2 ^ 32) (hcarries : ∀ b ∈ batches, Carries numExtraBytes b)
    {st : BatchState σ τ} (h : Delivers read st.reader (batches.flatMap batchBytes)) {fuel : ℕ}
    (hfuel : batches.length < fuel) :
    (forEachPointInBatches read numExtraBytes f fuel st).map BatchState.acc =
      batches.flatten.foldlM f st.acc := by
  induction batches generalizing fuel st with
  | nil =>
    obtain ⟨fuel, rfl⟩ := Nat.exists_eq_add_one.mpr hfuel
    rw [forEachPointInBatches, readExact_end (keeps_delivers read) h]
    rfl
  | cons points batches ih =>
    obtain ⟨fuel, rfl⟩ := Nat.exists_eq_add_one.mpr (Nat.zero_lt_of_lt hfuel)
    obtain ⟨header, reader, hread, hcount, hdel⟩ :=
      readExact_header (keeps_delivers read) (hlen points List.mem_cons_self) h
    obtain ⟨st', hst'⟩ : ∃ st' : BatchState σ τ, st' = { st with reader := reader } := ⟨_, rfl⟩
    have hdel' : Delivers read st'.reader
        (points.flatMap RawPoint.toRecord ++ batches.flatMap batchBytes) := hst' ▸ hdel
    have hstart : st'.acc = st.acc := hst' ▸ rfl
    obtain ⟨hacc, hnext⟩ := readPayload_spec (f := f) (hcarries points List.mem_cons_self) hdel'
    rw [hstart] at hacc
    rw [forEachPointInBatches, hread, Option.elim_some, hcount, List.flatten_cons,
      List.foldlM_append, ← hacc, ← hst']
    cases hpayload : readPayload read numExtraBytes f points.length st' with
    | none => rfl
    | some next =>
      exact ih (fun b hb => hlen b (List.mem_cons_of_mem _ hb))
        (fun b hb => hcarries b (List.mem_cons_of_mem _ hb)) (hnext next hpayload)
        (Nat.lt_of_succ_lt_succ hfuel)

/-- Bytes that are thrown away are left behind. -/
lemma skipBytes_spec {s : σ} {skipped rest : List UInt8}
    (h : Delivers read s (skipped ++ rest)) :
    ∃ s', skipBytes read skipped.length s = some s' ∧ Delivers read s' rest := by
  induction hn : skipped.length using Nat.strongRecOn generalizing s skipped with
  | ind n ih =>
    rw [skipBytes]
    split_ifs with hzero
    · obtain rfl := List.length_eq_zero_iff.mp (hn.trans hzero)
      exact ⟨s, rfl, h⟩
    · obtain ⟨k, hk⟩ : ∃ k, k = min n sinkSize := ⟨_, rfl⟩
      have hkn : 0 < k ∧ k ≤ n := by
        rw [sinkSize] at hk
        omega
      have htake : (skipped.take k).length = k := by
        rw [List.length_take]
        omega
      rw [← List.take_append_drop k skipped, List.append_assoc] at h
      obtain ⟨s', hread, hdel⟩ := (keeps_delivers read).readExact h
      rw [htake] at hread
      simp only [← hk, hread, Option.bind_some]
      exact ih (n - k) (by omega) hdel (by rw [List.length_drop, hn])

/-- Adding a count. -/
lemma count_add (total : UInt64) (points : List RawPoint) (batches : List (List RawPoint)) :
    total + UInt64.ofNat points.length + UInt64.ofNat batches.flatten.length =
      total + UInt64.ofNat (points :: batches).flatten.length := by
  rw [List.flatten_cons, List.length_append, UInt64.ofNat_add, UInt64.add_assoc]

/-- Decoding counts the points of all batches. -/
lemma countDecoding_spec {batches : List (List RawPoint)}
    (hlen : ∀ b ∈ batches, b.length < 2 ^ 32) (hcarries : ∀ b ∈ batches, Carries numExtraBytes b)
    {s : σ} (h : Delivers read s (batches.flatMap batchBytes)) {fuel : ℕ}
    (hfuel : batches.length < fuel) (total : UInt64) :
    countDecoding read numExtraBytes fuel s total =
      some (total + UInt64.ofNat batches.flatten.length) := by
  induction batches generalizing fuel s total with
  | nil =>
    obtain ⟨fuel, rfl⟩ := Nat.exists_eq_add_one.mpr hfuel
    rw [countDecoding, readExact_end (keeps_delivers read) h]
    exact congrArg some (UInt64.add_zero total).symm
  | cons points batches ih =>
    obtain ⟨fuel, rfl⟩ := Nat.exists_eq_add_one.mpr (Nat.zero_lt_of_lt hfuel)
    obtain ⟨header, reader, hread, hcount, hdel⟩ :=
      readExact_header (keeps_delivers read) (hlen points List.mem_cons_self) h
    obtain ⟨s', hskip, hdel'⟩ := skipBytes_spec hdel
    rw [length_records (hcarries points List.mem_cons_self)] at hskip
    rw [countDecoding, hread, Option.elim_some, hcount, hskip, Option.bind_some,
      ih (fun b hb => hlen b (List.mem_cons_of_mem _ hb))
        (fun b hb => hcarries b (List.mem_cons_of_mem _ hb)) hdel' (Nat.lt_of_succ_lt_succ hfuel),
      count_add]

/-- Seeking counts the points of all batches. -/
lemma countSeeking_spec {batches : List (List RawPoint)}
    (hlen : ∀ b ∈ batches, b.length < 2 ^ 32) (hcarries : ∀ b ∈ batches, Carries numExtraBytes b)
    {file : FileHandle} (h : file.At (batches.flatMap batchBytes)) {fuel : ℕ}
    (hfuel : batches.length < fuel) (total : UInt64) :
    countSeeking numExtraBytes fuel file total =
      some (total + UInt64.ofNat batches.flatten.length) := by
  induction batches generalizing fuel file total with
  | nil =>
    obtain ⟨fuel, rfl⟩ := Nat.exists_eq_add_one.mpr hfuel
    rw [countSeeking, readExact_end FileHandle.keeps_at h]
    exact congrArg some (UInt64.add_zero total).symm
  | cons points batches ih =>
    obtain ⟨fuel, rfl⟩ := Nat.exists_eq_add_one.mpr (Nat.zero_lt_of_lt hfuel)
    obtain ⟨header, file', hread, hcount, hat⟩ :=
      readExact_header FileHandle.keeps_at (hlen points List.mem_cons_self) h
    have hseek := FileHandle.at_seek hat
    rw [length_records (hcarries points List.mem_cons_self)] at hseek
    rw [countSeeking, hread, Option.elim_some, hcount,
      ih (fun b hb => hlen b (List.mem_cons_of_mem _ hb))
        (fun b hb => hcarries b (List.mem_cons_of_mem _ hb)) hseek (Nat.lt_of_succ_lt_succ hfuel),
      count_add]

end ReadBack

/-! ## The round trip -/

/-- The bytes of a file to which batches were written one after the other. -/
def fileBytes (lz4 : FrameCodec) (codec : TempCompression) (batches : List (List RawPoint)) :
    List UInt8 :=
  batches.flatMap fun b => codec.frame lz4 (batchBytes b)

/-- Write batches one after the other. -/
def writeBatches (lz4 : FrameCodec) (codec : TempCompression) (numExtraBytes : UInt16)
    (batches : List (List RawPoint)) : Option (List UInt8) :=
  (batches.mapM (writeTempBatch lz4 codec numExtraBytes)).map List.flatten

/-- One more batch at the end. -/
lemma writeBatches_concat (lz4 : FrameCodec) (codec : TempCompression) (numExtraBytes : UInt16)
    (batches : List (List RawPoint)) (b : List RawPoint) :
    writeBatches lz4 codec numExtraBytes (batches ++ [b]) =
      (writeBatches lz4 codec numExtraBytes batches).bind fun bytes =>
        (writeTempBatch lz4 codec numExtraBytes b).map (bytes ++ ·) := by
  rw [writeBatches, writeBatches, List.mapM_append]
  cases batches.mapM (writeTempBatch lz4 codec numExtraBytes) with
  | none => rfl
  | some outs =>
    cases hb : writeTempBatch lz4 codec numExtraBytes b with
    | none => simp [hb]
    | some out => simp [hb]

section RoundTrip

variable {lz4 : FrameCodec} {codec : TempCompression} {numExtraBytes : UInt16}
  {batches : List (List RawPoint)}

lemma writeBatches_eq (lz4 : FrameCodec) (codec : TempCompression)
    (hcarries : ∀ b ∈ batches, Carries numExtraBytes b) :
    writeBatches lz4 codec numExtraBytes batches = some (fileBytes lz4 codec batches) := by
  have hall : batches.mapM (writeTempBatch lz4 codec numExtraBytes) =
      some (batches.map fun b => codec.frame lz4 (batchBytes b)) := by
    induction batches with
    | nil => rfl
    | cons b batches ih =>
      rw [List.mapM_cons, writeTempBatch_eq lz4 codec (hcarries b List.mem_cons_self),
        ih fun b' hb' => hcarries b' (List.mem_cons_of_mem _ hb')]
      rfl
  rw [writeBatches, hall, Option.map_some, fileBytes, List.flatMap_def]

/-- Behind the frames of the codec lie the batches. -/
lemma delivers_lz4 (hlz4 : lz4.Lawful) {σ : Type} {read : ReadFn σ} {s : σ}
    (h : Delivers read s (fileBytes lz4 .lz4 batches)) :
    Delivers (joinFrames (lz4.read (readBuffered bufReaderCapacity read))) (lz4.start ⟨[], s⟩)
      (batches.flatMap batchBytes) := by
  have hne : ∀ f ∈ batches.map batchBytes, f ≠ [] := by
    intro f hf
    obtain ⟨b, -, rfl⟩ := List.mem_map.mp hf
    exact batchBytes_ne_nil b
  have hbytes : fileBytes lz4 .lz4 batches = (batches.map batchBytes).flatMap lz4.encode := by
    rw [List.flatMap_map]
    rfl
  rw [hbytes] at h
  have hbuf := delivers_readBuffered (show 0 < bufReaderCapacity by decide) h
  have hjoin := delivers_joinFrames hne (hlz4 _ _ _ hne hbuf)
  rwa [← List.flatMap_def] at hjoin

/-- Streaming hands on all points of all batches in order. -/
theorem streamTempBatches_spec (hlz4 : lz4.Lawful) (hlen : ∀ b ∈ batches, b.length < 2 ^ 32)
    (hcarries : ∀ b ∈ batches, Carries numExtraBytes b) {σ τ : Type} {read : ReadFn σ} {s : σ}
    (h : Delivers read s (fileBytes lz4 codec batches)) (f : τ → RawPoint → Option τ) (init : τ)
    {fuel : ℕ} (hfuel : batches.length < fuel) :
    streamTempBatches lz4 codec numExtraBytes read s f init fuel =
      batches.flatten.foldlM f init := by
  cases codec with
  | none =>
    have hdel := delivers_readBuffered (show 0 < bufReaderCapacity by decide) h
    exact forEachPointInBatches_spec hlen hcarries hdel hfuel
  | lz4 => exact forEachPointInBatches_spec hlen hcarries (delivers_lz4 hlz4 h) hfuel

/-- Pushing every point gives the points. -/
lemma foldlM_push (points out : List RawPoint) :
    points.foldlM (fun out p => some (out ++ [p])) out = some (out ++ points) := by
  induction points generalizing out with
  | nil => rw [List.foldlM_nil, List.append_nil]; rfl
  | cons p points ih =>
    rw [List.foldlM_cons]
    exact (ih (out ++ [p])).trans (by rw [List.append_assoc, List.singleton_append])

/-- Reading gives the points of all batches in order. -/
theorem readTempBatches_spec (hlz4 : lz4.Lawful) (hlen : ∀ b ∈ batches, b.length < 2 ^ 32)
    (hcarries : ∀ b ∈ batches, Carries numExtraBytes b) {σ : Type} {read : ReadFn σ} {s : σ}
    (h : Delivers read s (fileBytes lz4 codec batches)) {fuel : ℕ}
    (hfuel : batches.length < fuel) :
    readTempBatches lz4 codec numExtraBytes read s fuel = some batches.flatten := by
  rw [readTempBatches, streamTempBatches_spec hlz4 hlen hcarries h _ _ hfuel, foldlM_push,
    List.nil_append]

/-- Counting gives the number of points of all batches. -/
theorem countTempFilePoints_spec (hlz4 : lz4.Lawful) (hlen : ∀ b ∈ batches, b.length < 2 ^ 32)
    (hcarries : ∀ b ∈ batches, Carries numExtraBytes b) {file : FileHandle}
    (h : file.At (fileBytes lz4 codec batches)) {fuel : ℕ} (hfuel : batches.length < fuel) :
    countTempFilePoints lz4 codec numExtraBytes (some file) fuel =
      some (UInt64.ofNat batches.flatten.length) := by
  cases codec with
  | none => exact (countSeeking_spec hlen hcarries h hfuel 0).trans (by rw [UInt64.zero_add])
  | lz4 =>
    have hdel := delivers_lz4 hlz4 (FileHandle.delivers_of_at h)
    exact (countDecoding_spec hlen hcarries hdel hfuel 0).trans (by rw [UInt64.zero_add])

/-- Batches that were written one after the other are read back, whatever reader delivers the bytes
of the file: all points, field for field and in order, and their number. -/
theorem tempBatches_round_trip (hlz4 : lz4.Lawful) (codec : TempCompression)
    (hlen : ∀ b ∈ batches, b.length < 2 ^ 32)
    (hcarries : ∀ b ∈ batches, Carries numExtraBytes b) :
    ∃ bytes, writeBatches lz4 codec numExtraBytes batches = some bytes ∧
      (∀ (σ : Type) (read : ReadFn σ) (s : σ), Delivers read s bytes →
        ∀ fuel, batches.length < fuel →
          readTempBatches lz4 codec numExtraBytes read s fuel = some batches.flatten ∧
          ∀ (τ : Type) (f : τ → RawPoint → Option τ) (init : τ),
            streamTempBatches lz4 codec numExtraBytes read s f init fuel =
              batches.flatten.foldlM f init) ∧
      ∀ file : FileHandle, file.At bytes → ∀ fuel, batches.length < fuel →
        countTempFilePoints lz4 codec numExtraBytes (some file) fuel =
          some (UInt64.ofNat batches.flatten.length) := by
  refine ⟨_, writeBatches_eq lz4 codec hcarries, ?_, ?_⟩
  · intro σ read s hdel fuel hfuel
    exact ⟨readTempBatches_spec hlz4 hlen hcarries hdel hfuel,
      fun τ f init => streamTempBatches_spec hlz4 hlen hcarries hdel f init hfuel⟩
  · intro file hat fuel hfuel
    exact countTempFilePoints_spec hlz4 hlen hcarries hat hfuel

end RoundTrip

/-! ## Frames that store their bytes -/

/-- A frame marks every byte of its payload with a one and ends with a zero. -/
def storedFrames : FrameCodec where
  encode payload := payload.flatMap (fun b => [1, b]) ++ [0]
  Decoder := id
  start s := s
  read read _ s := if (read 1 s).1 = [1] then read 1 (read 1 s).2 else ([], (read 1 s).2)

/-- A request for one byte gets the next byte. -/
lemma read_one {σ : Type} {read : ReadFn σ} {s : σ} {b : UInt8} {bytes : List UInt8}
    (h : Delivers read s (b :: bytes)) :
    (read 1 s).1 = [b] ∧ Delivers read (read 1 s).2 bytes := by
  obtain ⟨rest, hrest, hle, hnil, hnext⟩ := keeps_delivers read s _ h 1 Nat.one_pos
  obtain ⟨c, hc⟩ : ∃ c, (read 1 s).1 = [c] := by
    rw [← List.length_eq_one_iff]
    have hne : (read 1 s).1 ≠ [] := fun hnone => List.cons_ne_nil _ _ (hnil hnone)
    have hpos := List.length_pos_of_ne_nil hne
    omega
  rw [hc, List.singleton_append, List.cons.injEq] at hrest
  obtain ⟨rfl, rfl⟩ := hrest
  exact ⟨hc, hnext⟩

lemma storedFrames_lawful : storedFrames.Lawful := by
  intro σ read s payloads _ h
  refine ⟨fun s frames => Delivers read s (frames.flatMap storedFrames.encode), ⟨?_, ?_, ?_⟩, h⟩
  · intro s hs n _
    obtain ⟨rest, hrest, -, -, hnext⟩ := keeps_delivers read s _ hs 1 Nat.one_pos
    obtain ⟨hnil, rfl⟩ := List.append_eq_nil_iff.mp hrest.symm
    have hread : storedFrames.read read n s = ([], (read 1 s).2) := if_neg (by rw [hnil]; decide)
    rw [hread]
    exact ⟨rfl, hnext⟩
  · intro s frames hs n _
    obtain ⟨hzero, hnext⟩ := read_one hs
    have hread : storedFrames.read read n s = ([], (read 1 s).2) := if_neg (by rw [hzero]; decide)
    rw [hread]
    exact ⟨rfl, hnext⟩
  · intro s frame frames hframe hs n hn
    obtain ⟨b, more, rfl⟩ := List.exists_cons_of_ne_nil hframe
    obtain ⟨hone, hnext⟩ := read_one hs
    obtain ⟨hb, hnext'⟩ := read_one hnext
    have hread : storedFrames.read read n s = read 1 (read 1 s).2 := if_pos hone
    rw [hread, hb]
    exact ⟨more, rfl, hn, List.cons_ne_nil _ _, hnext'⟩

/-- Three batches, one of them empty, written with compression and read one byte at a time. -/
theorem tempBatches_round_trip_bytewise : ∃ bytes,
    writeBatches storedFrames .lz4 0 [[default], [], [default, default]] = some bytes ∧
    readTempBatches storedFrames .lz4 0 FileHandle.readSome ⟨bytes, 0, fun _ => 0⟩ 4 =
      some [default, default, default] ∧
    countTempFilePoints storedFrames .lz4 0 (some ⟨bytes, 0, fun _ => 0⟩) 4 = some 3 := by
  obtain ⟨bytes, hwrite, hread, hcount⟩ := @tempBatches_round_trip storedFrames 0
    [[default], [], [default, default]] storedFrames_lawful .lz4 (by decide) (by decide)
  have hat : FileHandle.At ⟨bytes, 0, fun _ => 0⟩ bytes := ⟨[], rfl, rfl⟩
  exact ⟨bytes, hwrite, (hread _ _ _ (FileHandle.delivers_of_at hat) 4 (by decide)).1,
    hcount _ hat 4 (by decide)⟩

end CopcConverter
