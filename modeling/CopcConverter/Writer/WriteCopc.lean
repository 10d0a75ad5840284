import CopcConverter.Writer.Evlrs
import CopcConverter.Writer.PointRecords

/-!
# Writing the whole file

`write_copc` puts the parts of the output together: the head with a placeholder for the COPC info,
the compressed chunks, the record with the hierarchy, the record with the temporal index, and the
patches at the end.  The table of the chunk sizes is read back from the file once the compressor is
done, and the places of the chunks are computed from it.

The compression library is a parameter.  What is used of it are the bytes of the chunks, the table
of their sizes, and that decompressing gives back what was compressed; the two promises are
`LazCodec.Lawful`.  Floating-point numbers that the writer gets from elsewhere, the snapped bounds
and the spacing, are part of the settings.  Writing fails when the table cannot be read back, or
when an index cannot be built.
-/

namespace CopcConverter

open Bytes PageBytes

/-! ## The compression library -/

/-- What is used of the compression library, for the records of one point format. -/
structure LazCodec where
  /-- The payload of the record that describes the compression. -/
  vlrPayload : List UInt8
  /-- Compress the records of a chunk. -/
  compress : List UInt8 → List UInt8
  /-- Decompress a chunk, given the number of bytes of its records. -/
  decompress : List UInt8 → ℕ → Option (List UInt8)
  /-- The table of the chunks, as it is stored. -/
  chunkTable : List (List UInt8) → List UInt8
  /-- Read the sizes of the chunks from a file, given where the point data begins. -/
  readChunkTable : List UInt8 → ℕ → Option (List UInt64)

namespace LazCodec

variable (laz : LazCodec)

/-- The chunks as they lie in the file. -/
def chunkBytes (chunks : List (List UInt8)) : List UInt8 := chunks.flatMap laz.compress

/-- The point data from a position on: the position of the table, the chunks and the table. -/
def pointData (pos : ℕ) (chunks : List (List UInt8)) : List UInt8 :=
  u64 (UInt64.ofNat (pos + 8 + (laz.chunkBytes chunks).length)) ++
    (laz.chunkBytes chunks ++ laz.chunkTable chunks)

/-- What the library promises: chunks of whole records are compressed without loss, and the table
can be read back. -/
structure Lawful (recordLength : ℕ) : Prop where
  lossless : ∀ chunk, chunk ≠ [] → recordLength ∣ chunk.length →
    laz.decompress (laz.compress chunk) chunk.length = some chunk
  table : ∀ (before : List UInt8) (chunks : List (List UInt8)),
    (∀ c ∈ chunks, (laz.compress c).length < 2 ^ 32) →
    (before ++ laz.pointData before.length chunks).length < 2 ^ 63 →
    laz.readChunkTable (before ++ laz.pointData before.length chunks) before.length =
      some (chunks.map fun c => UInt64.ofNat (laz.compress c).length)

end LazCodec

/-! ## Settings -/

/-- What the builder and the configuration say about the output.  The floating-point numbers are
given: the snapped bounds and the spacing are computed from others. -/
structure WriteSettings where
  pointFormat : UInt8
  numExtraBytes : UInt16
  scaleX : F64
  scaleY : F64
  scaleZ : F64
  offsetX : F64
  offsetY : F64
  offsetZ : F64
  maxX : F64
  minX : F64
  maxY : F64
  minY : F64
  maxZ : F64
  minZ : F64
  cx : F64
  cy : F64
  cz : F64
  halfsize : F64
  spacing : F64
  wktCrs : Option (List UInt8)
  extraBytesVlr : Option (List UInt8)
  temporalIndex : Option TemporalStride

namespace WriteSettings

variable (s : WriteSettings)

/-- The size of the point records. -/
def recordLength : UInt16 := pointRecordLength s.pointFormat s.numExtraBytes

/-- The COPC info, once it is known where the hierarchy lies and what the times are. -/
def info (rootHierOffset rootHierSize : UInt64) (gpstimeMinimum gpstimeMaximum : F64) : CopcInfo :=
  { centerX := s.cx, centerY := s.cy, centerZ := s.cz, halfsize := s.halfsize
    spacing := s.spacing, rootHierOffset, rootHierSize, gpstimeMinimum, gpstimeMaximum }

/-- The head of the file; the number of points is that of the listed nodes. -/
def head (laz : LazCodec) (nodeKeys : List (VoxelKey × ℕ)) : FileHead where
  fields :=
    { pointFormat := s.pointFormat
      pointRecordLen := s.recordLength
      scaleX := s.scaleX, scaleY := s.scaleY, scaleZ := s.scaleZ
      offsetX := s.offsetX, offsetY := s.offsetY, offsetZ := s.offsetZ
      maxX := s.maxX, minX := s.minX, maxY := s.maxY, minY := s.minY, maxZ := s.maxZ, minZ := s.minZ
      temporalIndex := s.temporalIndex.isSome
      totalPoints := UInt64.ofNat (nodeKeys.map Prod.snd).sum }
  infoPlaceholder := s.info 0 0 ⟨0⟩ ⟨0⟩
  lazVlrPayload := laz.vlrPayload
  wktCrs := s.wktCrs
  extraBytesVlr := s.extraBytesVlr

end WriteSettings

/-! ## Writing -/

namespace FileHead

/-- What is in the file when the compressor takes over. -/
def front (h : FileHead) : List UInt8 := h.header ++ writeVlrs (h.vlrs h.infoPlaceholder)

end FileHead

/-- The record with the hierarchy. -/
def hierarchyEvlr (payload : List UInt8) : Vlr × List UInt8 :=
  (⟨ascii "copc", 1000, payload⟩, ascii "copc hierarchy")

/-- The record with the temporal index. -/
def temporalEvlr (payload : List UInt8) : Vlr × List UInt8 :=
  (⟨ascii "copc_temporal", 1000, payload⟩, ascii "temporal index")

/-- The records behind the hierarchy: the temporal index when it is asked for, its header lying at
the given position. -/
def temporalEvlrs (temporalIndex : Option TemporalStride) (entries : List TemporalIndexEntry)
    (pos : ℕ) : Option (List (Vlr × List UInt8)) :=
  match temporalIndex with
  | none => some []
  | some stride =>
    (buildTemporalPayload entries stride.value
      (UInt64.ofNat pos + UInt64.ofNat evlrHeaderSize)).map fun payload => [temporalEvlr payload]

/-- What is patched at the end. -/
def patchesOf (s : WriteSettings) (stats : PointStats) (evlrStart rootOffset rootSize : UInt64) :
    FileHead.Patches where
  info := s.info rootOffset rootSize stats.gpsMin stats.gpsMax
  evlrStart := evlrStart
  returnCounts := List.ofFn fun k => UInt64.ofNat (stats.returns k)
  length_returnCounts := List.length_ofFn

/-- Write the file; none when the chunk table cannot be read back or an index cannot be built. -/
def writeCopc (laz : LazCodec) (o : IterOrder) (s : WriteSettings) (store : Store)
    (nodeKeys : List (VoxelKey × ℕ)) : Option (List UInt8) := do
  let h := s.head laz nodeKeys
  let st := writeWindows o s.pointFormat s.temporalIndex store (windows (dataKeys nodeKeys))
  let pointData := laz.pointData h.front.length st.chunks
  let file := h.front ++ pointData
  let chunkTable ← laz.readChunkTable file h.offsetToPointData.toNat
  let evlrStart := UInt64.ofNat file.length
  let chunkInfo ← chunkInfo chunkTable h.offsetToPointData nodeKeys
  let (hierPayload, rootOffset, rootSize) ←
    buildHierarchyPayload chunkInfo (evlrStart + UInt64.ofNat evlrHeaderSize)
  let hierarchy := hierarchyEvlr hierPayload
  let temporal ← temporalEvlrs s.temporalIndex st.temporalEntries
    (file.length + (writeEvlrs [hierarchy]).length)
  some (h.output (pointData ++ writeEvlrs (hierarchy :: temporal))
    (patchesOf s st.stats.finished evlrStart rootOffset rootSize))

end CopcConverter
