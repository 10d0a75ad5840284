import CopcConverter.Validate.Scan

/-!
# The head of the output file

What `write_copc` puts before the point data: the header of 375 bytes and two to four
variable-length records, namely the COPC info, the record of the compressor, and the WKT text and
the Extra Bytes record when there are any.  At the end the counts, the start of the extended records
and the COPC info are patched.

A record has its length in 16 bits, while the offset to the point data is computed from the full
lengths.  A reader that walks the records by their lengths therefore gets all of them, and ends
where the point data begins, exactly when no payload is longer than 65535 bytes.  For such payloads
it gets every name and every payload in order, and the patched info; the header fields are read back
by their offsets.
-/

namespace CopcConverter

open Bytes

/-! ## Records -/

/-- COPC info payload. -/
structure CopcInfo where
  centerX : F64
  centerY : F64
  centerZ : F64
  halfsize : F64
  spacing : F64
  rootHierOffset : UInt64
  rootHierSize : UInt64
  gpstimeMinimum : F64
  gpstimeMaximum : F64

/-- Serialize the COPC info payload. -/
def CopcInfo.write (info : CopcInfo) : List UInt8 :=
  u64 info.centerX.bits ++ u64 info.centerY.bits ++ u64 info.centerZ.bits ++
    u64 info.halfsize.bits ++ u64 info.spacing.bits ++ u64 info.rootHierOffset ++
    u64 info.rootHierSize ++ u64 info.gpstimeMinimum.bits ++ u64 info.gpstimeMaximum.bits ++
    -- 11 reserved words
    List.replicate 88 0

@[simp] lemma CopcInfo.length_write (info : CopcInfo) : info.write.length = 160 := by
  simp [CopcInfo.write]

/-- Write a record: its header of 54 bytes and the payload. -/
def writeVlr (vlr : Vlr) (description : List UInt8) : List UInt8 :=
  toLE 2 0 ++ (padded 16 vlr.userId ++ (toLE 2 vlr.recordId.toNat ++ (toLE 2 vlr.data.length ++
    (padded 32 description ++ vlr.data))))

lemma length_writeVlr (vlr : Vlr) (description : List UInt8) :
    (writeVlr vlr description).length = 54 + vlr.data.length := by
  simp only [writeVlr, List.length_append, length_toLE, length_padded]
  omega

/-! ## The head of the file -/

/-- The header fields that are not computed from the records. -/
structure HeaderFields where
  pointFormat : UInt8
  pointRecordLen : UInt16
  scaleX : F64
  scaleY : F64
  scaleZ : F64
  offsetX : F64
  offsetY : F64
  offsetZ : F64
  maxX : F64
  minX : F64
  maxY : F64
  minY : F64
  maxZ : F64
  minZ : F64
  temporalIndex : Bool
  totalPoints : UInt64

/-- What is written before the point data. -/
structure FileHead where
  fields : HeaderFields
  /-- The COPC info before it is known where the hierarchy lies. -/
  infoPlaceholder : CopcInfo
  lazVlrPayload : List UInt8
  wktCrs : Option (List UInt8)
  extraBytesVlr : Option (List UInt8)

namespace FileHead

variable (h : FileHead)

/-- The size of a record in the sum of the sizes. -/
def vlrSize (payload : List UInt8) : UInt32 := 54 + UInt32.ofNat payload.length

def copcInfoVlrSize : UInt32 := 54 + 160

def wktVlrSize : UInt32 := (h.wktCrs.map vlrSize).getD 0

def extraBytesVlrSize : UInt32 := (h.extraBytesVlr.map vlrSize).getD 0

/-- The number of records in the header. -/
def numVlrs : UInt32 :=
  2 + (if h.wktCrs.isSome then 1 else 0) + (if h.extraBytesVlr.isSome then 1 else 0)

/-- The position of the point data in the header. -/
def offsetToPointData : UInt32 :=
  375 + copcInfoVlrSize + vlrSize h.lazVlrPayload + h.wktVlrSize + h.extraBytesVlrSize

/-- The position that is patched with the final COPC info. -/
def copcInfoPayloadPos : ℕ := 375 + 54

/-- The header up to the offset to the point data. -/
def headerFront : List UInt8 :=
  ascii "LASF" ++ toLE 2 0 ++ toLE 2 (0x0001 ||| 0x0010) ++ List.replicate 16 0 ++ [1, 4] ++
    padded 32 (ascii "copc_converter") ++ padded 32 (ascii "copc_converter 0.1") ++
    toLE 2 1 ++ toLE 2 2024 ++ toLE 2 375

/-- The header from the point format to the start of the waveform data. -/
def headerFields : List UInt8 :=
  [128 ||| h.fields.pointFormat] ++ toLE 2 h.fields.pointRecordLen.toNat ++
    toLE 4 0 ++ List.replicate 20 0 ++
    u64 h.fields.scaleX.bits ++ u64 h.fields.scaleY.bits ++ u64 h.fields.scaleZ.bits ++
    u64 h.fields.offsetX.bits ++ u64 h.fields.offsetY.bits ++ u64 h.fields.offsetZ.bits ++
    u64 h.fields.maxX.bits ++ u64 h.fields.minX.bits ++ u64 h.fields.maxY.bits ++
    u64 h.fields.minY.bits ++ u64 h.fields.maxZ.bits ++ u64 h.fields.minZ.bits ++ u64 0

/-- The header up to the start of the first extended record. -/
def headerBeforeEvlrStart : List UInt8 :=
  headerFront ++ (toLE 4 h.offsetToPointData.toNat ++ (toLE 4 h.numVlrs.toNat ++ h.headerFields))

/-- The header between the two places that are patched. -/
def headerAfterEvlrStart : List UInt8 :=
  toLE 4 (if h.fields.temporalIndex then 2 else 1) ++ u64 h.fields.totalPoints

/-- The header, with the start of the extended records and the counts by return still zero. -/
def header : List UInt8 :=
  h.headerBeforeEvlrStart ++ (u64 0 ++ (h.headerAfterEvlrStart ++ List.replicate 120 0))

/-- The records in order, each with its description. -/
def vlrs (info : CopcInfo) : List (Vlr × List UInt8) :=
  [(⟨ascii "copc", 1, info.write⟩, ascii "copc info"),
    (⟨ascii "laszip encoded", 22204, h.lazVlrPayload⟩, ascii "laz variable chunks")] ++
  (match h.wktCrs with
    | some wktData => [(⟨ascii "LASF_Projection", 2112, wktData⟩, ascii "WKT")]
    | none => []) ++
  (match h.extraBytesVlr with
    | some ebData => [(⟨ascii "LASF_Spec", 4, ebData⟩, ascii "Extra Bytes Record")]
    | none => [])

/-- The bytes of all records. -/
def writeVlrs (vlrs : List (Vlr × List UInt8)) : List UInt8 :=
  vlrs.flatMap fun v => writeVlr v.1 v.2

/-- What is patched into the file at the end. -/
structure Patches where
  info : CopcInfo
  evlrStart : UInt64
  returnCounts : List UInt64
  length_returnCounts : returnCounts.length = 15

/-- The finished file: what follows the records comes from the compressor and the extended
records. -/
def output (rest : List UInt8) (patches : Patches) : List UInt8 :=
  let file := h.header ++ (writeVlrs (h.vlrs h.infoPlaceholder) ++ rest)
  let file := overwrite file copcInfoPayloadPos patches.info.write
  let file := overwrite file 235 (u64 patches.evlrStart)
  overwrite file 255 (patches.returnCounts.flatMap u64)

end FileHead

/-! ## Reading the records back -/

/-- Walk the records of a file from a position on, each as long as its length field says. -/
def readVlrs (file : List UInt8) : ℕ → ℕ → Option (List Vlr × ℕ)
  | 0, pos => some ([], pos)
  | n + 1, pos =>
    let recordLength := ofLE (slice file (pos + 20) 2)
    if file.length < pos + 54 + recordLength then none
    else (readVlrs file n (pos + 54 + recordLength)).map fun r =>
      ({ userId := trimEnd (fun b => b = 0) (slice file (pos + 2) 16)
         recordId := UInt16.ofNat (ofLE (slice file (pos + 18) 2))
         data := slice file (pos + 54) recordLength } :: r.1, r.2)

/-- The records of a LAS file, which follow its header of 375 bytes, and the position after
them. -/
def readFileVlrs (file : List UInt8) : Option (List Vlr × ℕ) :=
  readVlrs file (ofLE (slice file 100 4)) 375

/-- The offset to the point data in the header of a LAS file. -/
def readOffsetToPointData (file : List UInt8) : ℕ := ofLE (slice file 96 4)


/-- A user id that is read back as it was written. -/
def WellNamed (vlr : Vlr) : Prop :=
  vlr.userId.length ≤ 16 ∧ ∀ b ∈ vlr.userId.getLast?, b ≠ 0

/-- A stretch after the part of a file up to a position. -/
lemma slice_from (before after : List UInt8) (k width : ℕ) :
    slice (before ++ after) (before.length + k) width = slice after k width := by
  rw [slice_skip after width (Nat.le_add_right _ k), Nat.add_sub_cancel_left]

/-- The fields of a record in its bytes. -/
lemma slice_writeVlr (vlr : Vlr) (description rest : List UInt8) :
    slice (writeVlr vlr description ++ rest) 2 16 = padded 16 vlr.userId ∧
      slice (writeVlr vlr description ++ rest) 18 2 = toLE 2 vlr.recordId.toNat ∧
      slice (writeVlr vlr description ++ rest) 20 2 = toLE 2 vlr.data.length ∧
      ∀ width, width ≤ vlr.data.length →
        slice (writeVlr vlr description ++ rest) 54 width = vlr.data.take width := by
  simp only [writeVlr, List.append_assoc]
  refine ⟨?_, ?_, ?_, fun width hwidth => ?_⟩
  · rw [slice_skip _ _ (by simp), length_toLE, Nat.sub_self, slice_here _ (length_padded 16 _)]
  · rw [slice_skip _ _ (by simp), length_toLE, slice_skip _ _ (by simp), length_padded]
    exact slice_here _ (length_toLE 2 _)
  · rw [slice_skip _ _ (by simp), length_toLE, slice_skip _ _ (by simp), length_padded,
      slice_skip _ _ (by simp), length_toLE]
    exact slice_here _ (length_toLE 2 _)
  · rw [slice_skip _ _ (by simp), length_toLE, slice_skip _ _ (by simp), length_padded,
      slice_skip _ _ (by simp), length_toLE, slice_skip _ _ (by simp), length_toLE,
      slice_skip _ _ (by simp), length_padded]
    rw [slice, List.drop_zero, List.take_append_of_le_length hwidth]

/-- One record: its payload is read up to its length modulo 2 ^ 16. -/
lemma readVlrs_succ {vlr : Vlr} (hname : WellNamed vlr) (before description rest : List UInt8)
    (n : ℕ) :
    readVlrs (before ++ (writeVlr vlr description ++ rest)) (n + 1) before.length =
      (readVlrs (before ++ (writeVlr vlr description ++ rest)) n
        (before.length + 54 + vlr.data.length % 65536)).map fun r =>
          ({ vlr with data := vlr.data.take (vlr.data.length % 65536) } :: r.1, r.2) := by
  obtain ⟨huser, hid, hlen, hdata⟩ := slice_writeVlr vlr description rest
  have hmod : vlr.data.length % 65536 ≤ vlr.data.length := Nat.mod_le _ _
  have hfits : ¬ (before ++ (writeVlr vlr description ++ rest)).length <
      before.length + 54 + vlr.data.length % 65536 := by
    simp only [List.length_append, length_writeVlr]
    omega
  have hrecord : UInt16.ofNat (vlr.recordId.toNat % 65536) = vlr.recordId := by
    rw [Nat.mod_eq_of_lt (show vlr.recordId.toNat < 65536 from vlr.recordId.toNat_lt),
      UInt16.ofNat_toNat]
  rw [readVlrs]
  simp only [slice_from, huser, hid, hlen, ofLE_toLE, show (256 : ℕ) ^ 2 = 65536 from rfl,
    hdata _ hmod, hrecord, trimEnd_padded hname.1 hname.2, if_neg hfits]

/-- Records whose payload lengths fit 16 bits are read back. -/
lemma readVlrs_of_fits {vlrs : List (Vlr × List UInt8)} (hnames : ∀ v ∈ vlrs, WellNamed v.1)
    (hfits : ∀ v ∈ vlrs, v.1.data.length < 65536) (before rest : List UInt8) :
    readVlrs (before ++ (FileHead.writeVlrs vlrs ++ rest)) vlrs.length before.length =
      some (vlrs.map Prod.fst, before.length + (FileHead.writeVlrs vlrs).length) := by
  induction vlrs generalizing before with
  | nil => rfl
  | cons v vlrs ih =>
    have hwrite : FileHead.writeVlrs (v :: vlrs) =
        writeVlr v.1 v.2 ++ FileHead.writeVlrs vlrs := List.flatMap_cons
    have hpos : before.length + 54 + v.1.data.length = (before ++ writeVlr v.1 v.2).length := by
      rw [List.length_append, length_writeVlr, Nat.add_assoc]
    have hrest := ih (fun w hw => hnames w (List.mem_cons_of_mem _ hw))
      (fun w hw => hfits w (List.mem_cons_of_mem _ hw)) (before ++ writeVlr v.1 v.2)
    rw [hwrite, List.append_assoc, List.length_cons, readVlrs_succ (hnames _ List.mem_cons_self),
      Nat.mod_eq_of_lt (hfits _ List.mem_cons_self), List.take_length, hpos, ← List.append_assoc,
      hrest, Option.map_some, List.map_cons, List.length_append, List.length_append, Nat.add_assoc]

/-- Records that are read back have payload lengths that fit 16 bits: of a longer payload only the
part up to its length modulo 2 ^ 16 is read. -/
lemma fits_of_readVlrs {vlrs : List (Vlr × List UInt8)} (hnames : ∀ v ∈ vlrs, WellNamed v.1)
    (before : List UInt8) {rest : List UInt8} {pos : ℕ}
    (h : readVlrs (before ++ (FileHead.writeVlrs vlrs ++ rest)) vlrs.length before.length =
      some (vlrs.map Prod.fst, pos)) : ∀ v ∈ vlrs, v.1.data.length < 65536 := by
  induction vlrs generalizing before with
  | nil =>
    intro v hv
    cases hv
  | cons v vlrs ih =>
    have hwrite : FileHead.writeVlrs (v :: vlrs) =
        writeVlr v.1 v.2 ++ FileHead.writeVlrs vlrs := List.flatMap_cons
    rw [hwrite, List.append_assoc, List.length_cons,
      readVlrs_succ (hnames _ List.mem_cons_self)] at h
    obtain ⟨r, hr, heq⟩ := Option.map_eq_some_iff.mp h
    simp only [List.map_cons, Prod.mk.injEq, List.cons.injEq] at heq
    obtain ⟨⟨hvlr, hvlrs⟩, hpos⟩ := heq
    have hv : v.1.data.length < 65536 := by
      have hlen := congrArg (fun w : Vlr => w.data.length) hvlr
      simp only [List.length_take] at hlen
      have hmod := Nat.mod_lt v.1.data.length (show 65536 > 0 by decide)
      omega
    refine List.forall_mem_cons.mpr ⟨hv, ?_⟩
    apply ih (fun w hw => hnames w (List.mem_cons_of_mem _ hw)) (before ++ writeVlr v.1 v.2)
    rw [List.append_assoc, List.length_append, length_writeVlr, ← Nat.add_assoc,
      ← Nat.mod_eq_of_lt hv, hr, ← hvlrs, ← hpos]

/-! ## The finished file -/

namespace FileHead

variable (h : FileHead)

lemma length_headerFront : headerFront.length = 96 := by
  simp only [headerFront, List.length_append, length_toLE, length_padded, List.length_replicate,
    List.length_cons, List.length_nil, show (ascii "LASF").length = 4 from rfl]

@[simp] lemma length_headerBeforeEvlrStart : h.headerBeforeEvlrStart.length = 235 := by
  simp only [headerBeforeEvlrStart, headerFields, List.length_append, length_headerFront,
    length_toLE, length_u64, List.length_replicate, List.length_cons, List.length_nil]

@[simp] lemma length_headerAfterEvlrStart : h.headerAfterEvlrStart.length = 12 := by
  simp only [headerAfterEvlrStart, List.length_append, length_toLE, length_u64]

lemma length_counts (patches : Patches) : (patches.returnCounts.flatMap u64).length = 120 := by
  simp only [List.length_flatMap, length_u64, List.map_const', List.sum_replicate,
    patches.length_returnCounts, smul_eq_mul]

/-- The header with its final values. -/
def finalHeader (patches : Patches) : List UInt8 :=
  h.headerBeforeEvlrStart ++ (u64 patches.evlrStart ++ (h.headerAfterEvlrStart ++
    patches.returnCounts.flatMap u64))

@[simp] lemma length_finalHeader (patches : Patches) : (h.finalHeader patches).length = 375 := by
  simp only [finalHeader, List.length_append, length_headerBeforeEvlrStart, length_u64,
    length_headerAfterEvlrStart, length_counts]

/-- The first record is the one of the COPC info. -/
lemma writeVlrs_vlrs (info : CopcInfo) : ∃ others : List UInt8, ∀ info' : CopcInfo,
    writeVlrs (h.vlrs info') =
      (toLE 2 0 ++ (padded 16 (ascii "copc") ++ (toLE 2 1 ++ (toLE 2 160 ++
        padded 32 (ascii "copc info"))))) ++ (info'.write ++ others) := by
  refine ⟨writeVlrs (h.vlrs info).tail, fun info' => ?_⟩
  have hcons : h.vlrs info' =
      (⟨ascii "copc", 1, info'.write⟩, ascii "copc info") :: (h.vlrs info).tail := rfl
  rw [hcons, writeVlrs, List.flatMap_cons, writeVlr, CopcInfo.length_write]
  simp only [List.append_assoc]
  rfl

/-- The patches land in the header fields and in the payload they are meant for. -/
lemma output_eq (rest : List UInt8) (patches : Patches) :
    h.output rest patches =
      h.finalHeader patches ++ (writeVlrs (h.vlrs patches.info) ++ rest) := by
  obtain ⟨others, hothers⟩ := h.writeVlrs_vlrs h.infoPlaceholder
  set frame : List UInt8 := toLE 2 0 ++ (padded 16 (ascii "copc") ++ (toLE 2 1 ++ (toLE 2 160 ++
    padded 32 (ascii "copc info")))) with hframe
  have hlen : frame.length = 54 := by
    simp only [hframe, List.length_append, length_toLE, length_padded]
  have hinfo := overwrite_middle (h.header ++ frame) h.infoPlaceholder.write (others ++ rest)
    patches.info.write (by simp)
  have hheader : (h.header ++ frame).length = copcInfoPayloadPos := by
    simp only [header, List.length_append, length_headerBeforeEvlrStart, length_u64,
      length_headerAfterEvlrStart, List.length_replicate, hlen, copcInfoPayloadPos]
  have hevlr := overwrite_middle h.headerBeforeEvlrStart (u64 0)
    (h.headerAfterEvlrStart ++ (List.replicate 120 0 ++ (frame ++ (patches.info.write ++
      (others ++ rest))))) (u64 patches.evlrStart) (by simp)
  have hcounts := overwrite_middle
    (h.headerBeforeEvlrStart ++ (u64 patches.evlrStart ++ h.headerAfterEvlrStart))
    (List.replicate 120 0) (frame ++ (patches.info.write ++ (others ++ rest)))
    (patches.returnCounts.flatMap u64) (by rw [length_counts, List.length_replicate])
  rw [hheader] at hinfo
  rw [length_headerBeforeEvlrStart] at hevlr
  simp only [List.length_append, length_headerBeforeEvlrStart, length_u64,
    length_headerAfterEvlrStart] at hcounts
  simp only [header, List.append_assoc] at hinfo hevlr hcounts
  simp only [output, hothers, header, finalHeader, List.append_assoc, hinfo, hevlr, hcounts]

/-- The user ids fit their field. -/
lemma wellNamed_vlrs (info : CopcInfo) : ∀ v ∈ h.vlrs info, WellNamed v.1 := by
  have hnames : ∀ v ∈ h.vlrs info, v.1.userId ∈ [ascii "copc", ascii "laszip encoded",
      ascii "LASF_Projection", ascii "LASF_Spec"] := by
    rw [vlrs]
    cases h.wktCrs <;> cases h.extraBytesVlr <;> simp
  have hwell : ∀ id ∈ [ascii "copc", ascii "laszip encoded", ascii "LASF_Projection",
      ascii "LASF_Spec"], id.length ≤ 16 ∧ ∀ b ∈ id.getLast?, b ≠ 0 := by decide +kernel
  exact fun v hv => hwell _ (hnames v hv)

/-- The header counts the records. -/
lemma toNat_numVlrs (info : CopcInfo) : h.numVlrs.toNat = (h.vlrs info).length := by
  rw [numVlrs, vlrs]
  cases h.wktCrs <;> cases h.extraBytesVlr <;> rfl

/-- The payloads of the records fit 16 bits. -/
lemma forall_vlrs_iff (info : CopcInfo) : (∀ v ∈ h.vlrs info, v.1.data.length < 65536) ↔
    h.lazVlrPayload.length < 65536 ∧ (∀ d ∈ h.wktCrs, d.length < 65536) ∧
      ∀ d ∈ h.extraBytesVlr, d.length < 65536 := by
  rw [vlrs]
  cases h.wktCrs <;> cases h.extraBytesVlr <;> simp

/-- The size of an optional record. -/
def optionalSize (payload : Option (List UInt8)) : ℕ := (payload.map fun d => 54 + d.length).getD 0

/-- The length of all records together. -/
lemma length_writeVlrs (info : CopcInfo) : (writeVlrs (h.vlrs info)).length =
    214 + (54 + h.lazVlrPayload.length) + optionalSize h.wktCrs + optionalSize h.extraBytesVlr := by
  rw [vlrs, writeVlrs, optionalSize, optionalSize]
  cases h.wktCrs <;> cases h.extraBytesVlr <;> simp [length_writeVlr] <;> omega

/-- A payload that fits 16 bits is not too long for the sum of the sizes either. -/
lemma toNat_vlrSize {payload : List UInt8} (hfits : payload.length < 65536) :
    (vlrSize payload).toNat = 54 + payload.length := by
  have hlen : (UInt32.ofNat payload.length).toNat = payload.length :=
    Nat.mod_eq_of_lt (show payload.length < 2 ^ 32 by omega)
  rw [vlrSize, UInt32.toNat_add, hlen]
  exact Nat.mod_eq_of_lt (show 54 + payload.length < 2 ^ 32 by omega)

lemma toNat_optionalSize {payload : Option (List UInt8)} (hfits : ∀ d ∈ payload, d.length < 65536) :
    ((payload.map vlrSize).getD 0).toNat = optionalSize payload ∧ optionalSize payload < 65590 := by
  cases payload with
  | none => exact ⟨rfl, by decide⟩
  | some d =>
    have hd := hfits d rfl
    refine ⟨toNat_vlrSize hd, ?_⟩
    change 54 + d.length < 65590
    omega

/-- The header's offset to the point data is the end of the records. -/
lemma toNat_offsetToPointData (info : CopcInfo) (hlaz : h.lazVlrPayload.length < 65536)
    (hwkt : ∀ d ∈ h.wktCrs, d.length < 65536) (heb : ∀ d ∈ h.extraBytesVlr, d.length < 65536) :
    h.offsetToPointData.toNat = 375 + (writeVlrs (h.vlrs info)).length := by
  obtain ⟨hwktSize, hwktLt⟩ := toNat_optionalSize hwkt
  obtain ⟨hebSize, hebLt⟩ := toNat_optionalSize heb
  have hinfo : (375 + copcInfoVlrSize).toNat = 375 + 214 := rfl
  rw [length_writeVlrs, offsetToPointData, wktVlrSize, extraBytesVlrSize, UInt32.toNat_add,
    UInt32.toNat_add, UInt32.toNat_add, hinfo, toNat_vlrSize hlaz, hwktSize, hebSize]
  omega

/-- The number of records and the offset to the point data as a reader finds them. -/
lemma read_output (rest : List UInt8) (patches : Patches) :
    readOffsetToPointData (h.output rest patches) = h.offsetToPointData.toNat ∧
      readFileVlrs (h.output rest patches) =
        readVlrs (h.output rest patches) (h.vlrs patches.info).length 375 := by
  have hoffset : ofLE (toLE 4 h.offsetToPointData.toNat) = h.offsetToPointData.toNat := by
    rw [ofLE_toLE]
    exact Nat.mod_eq_of_lt h.offsetToPointData.toNat_lt
  have hcount : ofLE (toLE 4 h.numVlrs.toNat) = h.numVlrs.toNat := by
    rw [ofLE_toLE]
    exact Nat.mod_eq_of_lt h.numVlrs.toNat_lt
  rw [readOffsetToPointData, readFileVlrs, h.output_eq, finalHeader, headerBeforeEvlrStart]
  simp only [List.append_assoc]
  constructor
  · rw [slice_skip _ _ (Nat.le_of_eq length_headerFront), length_headerFront,
      slice_here _ (length_toLE 4 _), hoffset]
  · rw [slice_skip _ _ (length_headerFront.le.trans (by decide)), length_headerFront,
      slice_skip _ _ (Nat.le_of_eq (length_toLE 4 _)), length_toLE,
      slice_here _ (length_toLE 4 _), hcount, h.toNat_numVlrs patches.info]

/-- **A reader recovers the records exactly when no payload is longer than 65535 bytes**: walking
them from byte 375 on gives every user id, record id and payload in order and ends at the offset to
the point data, and the patched payload is the one of the COPC info. -/
theorem records_recovered_iff (rest : List UInt8) (patches : Patches) :
    (readFileVlrs (h.output rest patches) =
        some ((h.vlrs patches.info).map Prod.fst, readOffsetToPointData (h.output rest patches)) ∧
      slice (h.output rest patches) copcInfoPayloadPos 160 = patches.info.write) ↔
    h.lazVlrPayload.length < 65536 ∧ (∀ d ∈ h.wktCrs, d.length < 65536) ∧
      ∀ d ∈ h.extraBytesVlr, d.length < 65536 := by
  have hread := h.read_output rest patches
  have hwalk : h.output rest patches = _ := h.output_eq rest patches
  rw [hread.1, hread.2, hwalk, ← h.length_finalHeader patches]
  constructor
  · rintro ⟨hvlrs, -⟩
    exact (h.forall_vlrs_iff _).mp (fits_of_readVlrs (h.wellNamed_vlrs _) _ hvlrs)
  · intro hfits
    refine ⟨?_, ?_⟩
    · rw [readVlrs_of_fits (h.wellNamed_vlrs _) ((h.forall_vlrs_iff _).mpr hfits),
        h.toNat_offsetToPointData patches.info hfits.1 hfits.2.1 hfits.2.2, h.length_finalHeader]
    · obtain ⟨others, hothers⟩ := h.writeVlrs_vlrs patches.info
      rw [hothers, copcInfoPayloadPos, ← h.length_finalHeader patches, slice_from,
        List.append_assoc, slice_skip _ _ (by simp)]
      simp only [List.length_append, length_toLE, length_padded, List.append_assoc]
      exact slice_here _ patches.info.length_write

/-- A head without optional records but a WKT text of the given length. -/
def wktHead (length : ℕ) : FileHead where
  fields := ⟨6, 30, ⟨0⟩, ⟨0⟩, ⟨0⟩, ⟨0⟩, ⟨0⟩, ⟨0⟩, ⟨0⟩, ⟨0⟩, ⟨0⟩, ⟨0⟩, ⟨0⟩, ⟨0⟩, false, 0⟩
  infoPlaceholder := ⟨⟨0⟩, ⟨0⟩, ⟨0⟩, ⟨0⟩, ⟨0⟩, 0, 0, ⟨0⟩, ⟨0⟩⟩
  lazVlrPayload := []
  wktCrs := some (List.replicate length 32)
  extraBytesVlr := none

/-- Patches without content. -/
def noPatches : Patches where
  info := ⟨⟨0⟩, ⟨0⟩, ⟨0⟩, ⟨0⟩, ⟨0⟩, 0, 0, ⟨0⟩, ⟨0⟩⟩
  evlrStart := 0
  returnCounts := List.replicate 15 0
  length_returnCounts := rfl

/-- **A WKT text of 65536 bytes is not recovered.** -/
theorem long_wkt_lost :
    readFileVlrs ((wktHead 65536).output [] noPatches) ≠
      some (((wktHead 65536).vlrs noPatches.info).map Prod.fst,
        readOffsetToPointData ((wktHead 65536).output [] noPatches)) := by
  intro hvlrs
  rw [((wktHead 65536).read_output [] noPatches).2, (wktHead 65536).output_eq,
    ← (wktHead 65536).length_finalHeader noPatches] at hvlrs
  have hfits := ((wktHead 65536).forall_vlrs_iff _).mp
    (fits_of_readVlrs ((wktHead 65536).wellNamed_vlrs _) _ hvlrs)
  have hlen := hfits.2.1 (List.replicate 65536 32) rfl
  rw [List.length_replicate] at hlen
  exact absurd hlen (by decide)

end FileHead

end CopcConverter
