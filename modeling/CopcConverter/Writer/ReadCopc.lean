import CopcConverter.Writer.WriteCopc

/-!
# Reading the whole file

A reader that knows nothing but the bytes of the output.  It takes the point format, the sizes, the
counts and the positions from the header, the place of the root page from the COPC info, which is
the first record, and walks the pages of the hierarchy from there.  For a key it descends to the
page where the entry of the key must be; for all points it collects the entries of all pages.  An
entry names a chunk by its place and size, which is decompressed by the library and decoded record
by record.

This reader is not a function of the repository; it is what the format promises to any reader,
written down independently of the writer, so that reading back what was written says something.  The
header and the info are read back here, with what was patched into them.
-/

namespace CopcConverter

open Bytes LevelTree PageBytes PageTree

/-! ## The header -/

/-- Read a COPC info payload. -/
def CopcInfo.read (bs : List UInt8) : CopcInfo where
  centerX := ⟨readU64 bs 0⟩
  centerY := ⟨readU64 bs 8⟩
  centerZ := ⟨readU64 bs 16⟩
  halfsize := ⟨readU64 bs 24⟩
  spacing := ⟨readU64 bs 32⟩
  rootHierOffset := readU64 bs 40
  rootHierSize := readU64 bs 48
  gpstimeMinimum := ⟨readU64 bs 56⟩
  gpstimeMaximum := ⟨readU64 bs 64⟩

/-- What a reader keeps of the head of a file. -/
structure CopcHeader where
  pointFormat : UInt8
  recordLength : ℕ
  totalPoints : UInt64
  evlrStart : ℕ
  numEvlrs : ℕ
  returnCounts : List UInt64
  info : CopcInfo

/-- Read the header and the COPC info, which is the first record. -/
def readCopcHeader (file : List UInt8) : Option CopcHeader :=
  if slice file 0 4 = ascii "LASF" then
    (readFileVlrs file).bind fun r => r.1.head?.bind fun vlr =>
      if vlr.userId = ascii "copc" ∧ vlr.recordId = 1 then
        some
          { pointFormat := UInt8.ofNat (ofLE (slice file 104 1)) &&& 0x7F
            recordLength := ofLE (slice file 105 2)
            totalPoints := readU64 file 247
            evlrStart := ofLE (slice file 235 8)
            numEvlrs := ofLE (slice file 243 4)
            returnCounts := (List.range 15).map fun k => readU64 file (255 + 8 * k)
            info := CopcInfo.read vlr.data }
      else none
  else none

/-! ## The points -/

namespace CopcHeader

variable (header : CopcHeader)

/-- Where the root page of the hierarchy lies. -/
def rootPage : Link := ⟨header.info.rootHierOffset, header.info.rootHierSize.toNat⟩

/-- The entries of the hierarchy, page after page. -/
def hierarchy (file : List UInt8) (fuel : ℕ) : Option (List HierarchyEntry) :=
  (walk (readPage parseHierarchy file 0) fuel header.rootPage).map fun pages =>
    pages.flatMap fun page => entries page.2

/-- The entry of a key. -/
def lookup (file : List UInt8) (key : VoxelKey) (fuel : ℕ) : Option HierarchyEntry :=
  seek (readPage parseHierarchy file 0) (fun e => e.key = key) (fun a => IsAncestor a key) fuel
    header.rootPage

/-- The points of an entry, from the chunk that it names; without points there is no chunk. -/
def pointsOf (laz : LazCodec) (file : List UInt8) (e : HierarchyEntry) : Option (List RawPoint) :=
  let count := e.pointCount.toNatClampNeg
  if count = 0 then some []
  else
    (laz.decompress (slice file e.offset.toNat e.byteSize.toNatClampNeg)
      (count * header.recordLength)).bind fun bytes =>
        decodePoints header.pointFormat header.recordLength count bytes

/-- All points of the file. -/
def allPoints (laz : LazCodec) (file : List UInt8) (fuel : ℕ) : Option (List RawPoint) :=
  (header.hierarchy file fuel).bind fun es =>
    (es.mapM fun e => header.pointsOf laz file e).map List.flatten

end CopcHeader

/-! ## The header is read back -/

lemma readU64_u64 (n : UInt64) : readU64 (u64 n) 0 = n := by
  simpa using readU64_u64_append n []

/-- The COPC info is read back. -/
lemma CopcInfo.read_write (info : CopcInfo) : CopcInfo.read info.write = info := by
  have hcx : readU64 info.write 0 = info.centerX.bits := readU64_u64 _
  have hcy : readU64 info.write 8 = info.centerY.bits := readU64_u64 _
  have hcz : readU64 info.write 16 = info.centerZ.bits := readU64_u64 _
  have hhalf : readU64 info.write 24 = info.halfsize.bits := readU64_u64 _
  have hspacing : readU64 info.write 32 = info.spacing.bits := readU64_u64 _
  have hoffset : readU64 info.write 40 = info.rootHierOffset := readU64_u64 _
  have hsize : readU64 info.write 48 = info.rootHierSize := readU64_u64 _
  have hmin : readU64 info.write 56 = info.gpstimeMinimum.bits := readU64_u64 _
  have hmax : readU64 info.write 64 = info.gpstimeMaximum.bits := readU64_u64 _
  rw [CopcInfo.read, hcx, hcy, hcz, hhalf, hspacing, hoffset, hsize, hmin, hmax]

/-- The value of the bytes of a number. -/
lemma ofNat_ofLE_u64 (n : UInt64) : UInt64.ofNat (ofLE (u64 n)) = n := by
  have hlt : n.toNat < 256 ^ 8 := n.toNat_lt
  rw [u64, ofLE_toLE, Nat.mod_eq_of_lt hlt, UInt64.ofNat_toNat]

/-- A number is the value of its eight bytes. -/
lemma readU64_eq (bs : List UInt8) (off : ℕ) :
    readU64 bs off = UInt64.ofNat (ofLE (slice bs off 8)) := rfl

/-- Numbers that follow one another are read back. -/
lemma map_readU64_flatMap (ns : List UInt64) (before rest : List UInt8) :
    (List.range ns.length).map
      (fun k => readU64 (before ++ (ns.flatMap u64 ++ rest)) (before.length + 8 * k)) = ns := by
  induction ns generalizing before with
  | nil => rfl
  | cons n ns ih =>
    have hfirst : readU64 (before ++ ((n :: ns).flatMap u64 ++ rest)) (before.length + 8 * 0) =
        n := by
      rw [readU64_eq, slice_from, List.flatMap_cons, List.append_assoc,
        slice_here _ (length_u64 n), ofNat_ofLE_u64]
    have hrest : ∀ k, readU64 (before ++ ((n :: ns).flatMap u64 ++ rest))
        (before.length + 8 * (k + 1)) =
          readU64 ((before ++ u64 n) ++ (ns.flatMap u64 ++ rest))
            ((before ++ u64 n).length + 8 * k) := by
      intro k
      rw [List.flatMap_cons, List.append_assoc, List.append_assoc, List.length_append, length_u64]
      congr 1
      omega
    rw [List.length_cons, List.range_succ_eq_map, List.map_cons, hfirst, List.map_map]
    have hmap : (fun k => readU64 (before ++ ((n :: ns).flatMap u64 ++ rest))
        (before.length + 8 * k)) ∘ Nat.succ = fun k =>
          readU64 ((before ++ u64 n) ++ (ns.flatMap u64 ++ rest))
            ((before ++ u64 n).length + 8 * k) := funext hrest
    rw [hmap, ih (before ++ u64 n)]

namespace FileHead

variable (h : FileHead)

/-- The records of a finished file whose payloads fit 16 bits. -/
lemma readFileVlrs_output (rest : List UInt8) (patches : Patches)
    (hlaz : h.lazVlrPayload.length < 65536) (hwkt : ∀ d ∈ h.wktCrs, d.length < 65536)
    (heb : ∀ d ∈ h.extraBytesVlr, d.length < 65536) :
    readFileVlrs (h.output rest patches) = some ((h.vlrs patches.info).map Prod.fst,
      375 + (writeVlrs (h.vlrs patches.info)).length) := by
  rw [(h.read_output rest patches).2, h.output_eq, ← h.length_finalHeader patches]
  exact readVlrs_of_fits (h.wellNamed_vlrs _)
    ((h.forall_vlrs_iff _).mpr ⟨hlaz, hwkt, heb⟩) _ _

/-- The numbers of the header, where a reader looks for them. -/
lemma slice_output (rest : List UInt8) (patches : Patches) :
    slice (h.output rest patches) 0 4 = ascii "LASF" ∧
      slice (h.output rest patches) 104 1 = [128 ||| h.fields.pointFormat] ∧
      slice (h.output rest patches) 105 2 = toLE 2 h.fields.pointRecordLen.toNat ∧
      slice (h.output rest patches) 235 8 = u64 patches.evlrStart ∧
      slice (h.output rest patches) 243 4 = toLE 4 (if h.fields.temporalIndex then 2 else 1) ∧
      slice (h.output rest patches) 247 8 = u64 h.fields.totalPoints := by
  have hfields : ∀ k width, slice (h.output rest patches) (104 + k) width =
      slice (h.headerFields ++ (u64 patches.evlrStart ++ (h.headerAfterEvlrStart ++
        (patches.returnCounts.flatMap u64 ++ (writeVlrs (h.vlrs patches.info) ++ rest)))))
        k width := by
    intro k width
    rw [h.output_eq, finalHeader, headerBeforeEvlrStart]
    simp only [List.append_assoc]
    rw [slice_skip _ _ (by rw [length_headerFront]; omega), length_headerFront,
      slice_skip _ _ (by rw [length_toLE]; omega), length_toLE,
      slice_skip _ _ (by rw [length_toLE]; omega), length_toLE]
    congr 1
    omega
  have hafter : ∀ k width, slice (h.output rest patches) (235 + k) width =
      slice (u64 patches.evlrStart ++ (h.headerAfterEvlrStart ++
        (patches.returnCounts.flatMap u64 ++ (writeVlrs (h.vlrs patches.info) ++ rest))))
        k width := by
    intro k width
    rw [h.output_eq, finalHeader]
    simp only [List.append_assoc]
    rw [← h.length_headerBeforeEvlrStart, slice_from]
  refine ⟨?_, ?_, ?_, ?_, ?_, ?_⟩
  · rw [h.output_eq, finalHeader, headerBeforeEvlrStart, headerFront]
    simp only [List.append_assoc]
    exact slice_here _ rfl
  · rw [hfields 0, headerFields]
    simp only [List.append_assoc]
    exact slice_here _ rfl
  · rw [hfields 1, headerFields]
    simp only [List.append_assoc]
    rw [slice_skip _ _ (by simp)]
    exact slice_here _ (length_toLE 2 _)
  · rw [hafter 0]
    exact slice_here _ (length_u64 _)
  · rw [hafter 8, headerAfterEvlrStart, slice_skip _ _ (by simp)]
    simp only [List.append_assoc]
    exact slice_here _ (length_toLE 4 _)
  · rw [hafter 12, headerAfterEvlrStart, slice_skip _ _ (by simp)]
    simp only [List.append_assoc]
    rw [slice_skip _ _ (by simp)]
    exact slice_here _ (length_u64 _)

/-- **The header is read back**, with what was patched into it. -/
theorem readCopcHeader_output (hfmt : IsCopcFormat h.fields.pointFormat) (rest : List UInt8)
    (patches : Patches) (hlaz : h.lazVlrPayload.length < 65536)
    (hwkt : ∀ d ∈ h.wktCrs, d.length < 65536) (heb : ∀ d ∈ h.extraBytesVlr, d.length < 65536) :
    readCopcHeader (h.output rest patches) = some
      { pointFormat := h.fields.pointFormat
        recordLength := h.fields.pointRecordLen.toNat
        totalPoints := h.fields.totalPoints
        evlrStart := patches.evlrStart.toNat
        numEvlrs := if h.fields.temporalIndex then 2 else 1
        returnCounts := patches.returnCounts
        info := patches.info } := by
  obtain ⟨hsignature, hformat, hlength, hstart, hnum, htotal⟩ := h.slice_output rest patches
  have hfirst : (h.vlrs patches.info).map Prod.fst =
      ⟨ascii "copc", 1, patches.info.write⟩ :: ((h.vlrs patches.info).map Prod.fst).tail := rfl
  have hmask : UInt8.ofNat (ofLE [128 ||| h.fields.pointFormat]) &&& 0x7F =
      h.fields.pointFormat := by
    rcases hfmt with hf | hf | hf <;> rw [hf] <;> decide
  have hreturns : (List.range 15).map (fun k => readU64 (h.output rest patches) (255 + 8 * k)) =
      patches.returnCounts := by
    have hall := map_readU64_flatMap patches.returnCounts
      (h.headerBeforeEvlrStart ++ (u64 patches.evlrStart ++ h.headerAfterEvlrStart))
      (writeVlrs (h.vlrs patches.info) ++ rest)
    rw [patches.length_returnCounts] at hall
    simp only [List.length_append, length_headerBeforeEvlrStart, length_u64,
      length_headerAfterEvlrStart, List.append_assoc] at hall
    rw [h.output_eq, finalHeader]
    simp only [List.append_assoc]
    exact hall
  have htimes : ofLE (u64 patches.evlrStart) = patches.evlrStart.toNat := by
    rw [u64, ofLE_toLE]
    exact Nat.mod_eq_of_lt patches.evlrStart.toNat_lt
  have hsize : ofLE (toLE 2 h.fields.pointRecordLen.toNat) = h.fields.pointRecordLen.toNat := by
    rw [ofLE_toLE]
    exact Nat.mod_eq_of_lt h.fields.pointRecordLen.toNat_lt
  have hevlrs : ofLE (toLE 4 (if h.fields.temporalIndex then 2 else 1)) =
      if h.fields.temporalIndex then 2 else 1 := by
    rw [ofLE_toLE]
    split_ifs <;> rfl
  rw [readCopcHeader, if_pos hsignature, h.readFileVlrs_output rest patches hlaz hwkt heb,
    Option.bind_some, hfirst, List.head?_cons, Option.bind_some, if_pos ⟨rfl, rfl⟩, hformat, hmask,
    hlength, hsize, readU64_eq, htotal, ofNat_ofLE_u64, hstart, htimes, hnum, hevlrs, hreturns,
    CopcInfo.read_write]

end FileHead

end CopcConverter
