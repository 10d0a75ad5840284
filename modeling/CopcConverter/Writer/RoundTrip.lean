import CopcConverter.Writer.ReadCopc

/-!
# The round trip of the whole file

A reader that is given the bytes of the output finds the points of every listed node: looking up the
key of a node leads to its own chunk, and the chunk decodes to its points, sorted by time.  Walking
the hierarchy finds all written points, each once.  The counts, the bounds of the times and the
records of the head are those that were to be written, and behind the point data lie the extended
records that the header counts, and nothing else.

`Writable` is what the writer relies on, most of which the builder promises, and `FitsFile` is what
makes it succeed; `ReadsBack` is what the reader finds.  A written file is taken apart into
`FileParts`, from which the positions of everything are computed once, in 64-bit arithmetic that
does not overflow in a file of less than `2 ^ 63` bytes.
-/

namespace CopcConverter

open Bytes LevelTree PageBytes PageTree

/-! ## What is relied on -/

/-- What `write_copc` relies on.  The builder promises it: nodes are listed once, with the numbers
of their points, and all points have extra bytes of one width.  The GPS times are numbers, so that
the points of a node can be sorted, and the sizes fit their fields in the file. -/
structure Writable (laz : LazCodec) (s : WriteSettings) (store : Store)
    (nodeKeys : List (VoxelKey × ℕ)) : Prop where
  lawful : laz.Lawful s.recordLength.toNat
  format : IsCopcFormat s.pointFormat
  width : 38 + s.numExtraBytes.toNat < 2 ^ 16
  nodup : (nodeKeys.map Prod.fst).Nodup
  counts : ∀ e ∈ nodeKeys, e.2 = (store e.1).length
  extras : ∀ e ∈ nodeKeys, ∀ p ∈ store e.1, p.extras.length = s.numExtraBytes.toNat
  times : ∀ e ∈ nodeKeys, ∀ p ∈ store e.1, (timeOf p).isNaN = false
  keys : ∀ e ∈ nodeKeys, e.1.FitsI32
  points : ∀ e ∈ nodeKeys, e.2 < 2 ^ 31
  chunks : ∀ e ∈ nodeKeys, ∀ chunk, IsChunkOf s.pointFormat store e chunk →
    (laz.compress chunk).length < 2 ^ 31
  lazVlr : laz.vlrPayload.length < 65536
  wkt : ∀ d ∈ s.wktCrs, d.length < 65536
  extraBytes : ∀ d ∈ s.extraBytesVlr, d.length < 65536

/-- The indexes fit a vector and the point data fits a file. -/
structure FitsFile (laz : LazCodec) (o : IterOrder) (s : WriteSettings) (store : Store)
    (nodeKeys : List (VoxelKey × ℕ)) : Prop where
  levels : ∀ e ∈ nodeKeys, e.1.level < 2 ^ 31 - 1
  hierarchy : 32 * (nodeKeys.length *
    (maxLevelOf ((orderedNodes nodeKeys).map Prod.fst) / 3 + 1)) ≤ isizeMax
  temporal : ∀ stride ∈ s.temporalIndex, ∀ built,
    temporalPages (temporalEntries o stride store nodeKeys) = some built →
      temporalHeaderSize + (pageSizes built.2).sum ≤ isizeMax
  pointData : ((s.head laz nodeKeys).front ++ laz.pointData (s.head laz nodeKeys).front.length
    (writeWindows o s.pointFormat s.temporalIndex store
      (windows (dataKeys nodeKeys))).chunks).length < 2 ^ 63

/-- What a reader finds in a written file: the numbers of the header are those of the written
points, the records are the given ones, looking up the key of a listed node leads to its points,
sorted by time, walking the hierarchy leads to all points, and the extended records, of which the
hierarchy is the first one and holds all pages, end with the file. -/
structure ReadsBack (laz : LazCodec) (s : WriteSettings) (store : Store)
    (nodeKeys : List (VoxelKey × ℕ)) (file : List UInt8) (header : CopcHeader) : Prop where
  head : readCopcHeader file = some header
  pointFormat : header.pointFormat = s.pointFormat
  recordLength : header.recordLength = s.recordLength.toNat
  totalPoints : header.totalPoints = UInt64.ofNat (writtenPoints store nodeKeys).length
  returnCounts : ∀ k : Fin 15, header.returnCounts[k.val]? = some (UInt64.ofNat
    ((writtenPoints store nodeKeys).countP fun p => p.returnNumber.toNat = k.val + 1))
  times :
    header.info.gpstimeMinimum.key =
      (pointStats (writtenPoints store nodeKeys)).finished.gpsMin.key ∧
    header.info.gpstimeMaximum.key =
      (pointStats (writtenPoints store nodeKeys)).finished.gpsMax.key
  vlrs : ∃ dataStart, readFileVlrs file =
    some (((s.head laz nodeKeys).vlrs header.info).map Prod.fst, dataStart)
  found : ∀ n ∈ nodeKeys, ∃ entry pts need,
    (∀ fuel, need ≤ fuel → header.lookup file n.1 fuel = some entry) ∧
      header.pointsOf laz file entry = some pts ∧
      pts.Perm ((store n.1).map (RawPoint.asWritten s.pointFormat)) ∧
      pts.Pairwise fun p q => notLater p q = true
  all : ∃ pts need, (∀ fuel, need ≤ fuel → header.allPoints laz file fuel = some pts) ∧
    pts.Perm ((writtenPoints store nodeKeys).map (RawPoint.asWritten s.pointFormat))
  records : ∃ payload others, readEvlrs file header.numEvlrs header.evlrStart =
      some ((hierarchyEvlr payload).1 :: others, file.length) ∧
    others.map Vlr.userId = (if s.temporalIndex.isSome then [ascii "copc_temporal"] else []) ∧
    ∃ pages need, (∀ fuel, need ≤ fuel →
        walk (readPage parseHierarchy file 0) fuel header.rootPage = some pages) ∧
      Tiles (UInt64.ofNat (header.evlrStart + evlrHeaderSize)) 0 (pages.map Prod.fst)
        payload.length

/-! ## The parts of the file -/

section Parts

variable {laz : LazCodec} {o : IterOrder} {s : WriteSettings} {store : Store}
  {nodeKeys : List (VoxelKey × ℕ)} {file : List UInt8}

/-- What goes through the loop over the windows. -/
def writtenState (o : IterOrder) (s : WriteSettings) (store : Store)
    (nodeKeys : List (VoxelKey × ℕ)) : WriterState :=
  writeWindows o s.pointFormat s.temporalIndex store (windows (dataKeys nodeKeys))

/-- The parts of a written file: the head, the point data with the table that is read back from it,
the hierarchy, and what follows it. -/
structure FileParts (laz : LazCodec) (o : IterOrder) (s : WriteSettings) (store : Store)
    (nodeKeys : List (VoxelKey × ℕ)) (file : List UInt8) where
  pointData : List UInt8
  chunkTable : List UInt64
  entries : List HierarchyEntry
  payload : List UInt8
  rootOffset : UInt64
  rootSize : UInt64
  temporal : List (Vlr × List UInt8)
  evlrStart : ℕ
  pointData_eq : pointData = laz.pointData (s.head laz nodeKeys).front.length
    (writtenState o s store nodeKeys).chunks
  table : laz.readChunkTable ((s.head laz nodeKeys).front ++ pointData)
    (s.head laz nodeKeys).offsetToPointData.toNat = some chunkTable
  start : evlrStart = ((s.head laz nodeKeys).front ++ pointData).length
  chunkInfo_eq : chunkInfo chunkTable (s.head laz nodeKeys).offsetToPointData nodeKeys =
    some entries
  built : buildHierarchyPayload entries
    (UInt64.ofNat evlrStart + UInt64.ofNat evlrHeaderSize) = some (payload, rootOffset, rootSize)
  temporal_eq : temporalEvlrs s.temporalIndex (writtenState o s store nodeKeys).temporalEntries
    (evlrStart + (writeEvlrs [hierarchyEvlr payload]).length) = some temporal
  file_eq : file = (s.head laz nodeKeys).output
    (pointData ++ writeEvlrs (hierarchyEvlr payload :: temporal))
    (patchesOf s (writtenState o s store nodeKeys).stats.finished (UInt64.ofNat evlrStart)
      rootOffset rootSize)

/-- A written file has its parts. -/
lemma exists_fileParts (h : writeCopc laz o s store nodeKeys = some file) :
    Nonempty (FileParts laz o s store nodeKeys file) := by
  rw [writeCopc] at h
  obtain ⟨chunkTable, htable, h⟩ := Option.bind_eq_some_iff.mp h
  obtain ⟨entries, hentries, h⟩ := Option.bind_eq_some_iff.mp h
  obtain ⟨⟨payload, rootOffset, rootSize⟩, hbuilt, h⟩ := Option.bind_eq_some_iff.mp h
  obtain ⟨temporal, htemporal, h⟩ := Option.bind_eq_some_iff.mp h
  exact ⟨{
    pointData := _, chunkTable, entries, payload, rootOffset, rootSize, temporal, evlrStart := _
    pointData_eq := rfl
    table := htable
    start := rfl
    chunkInfo_eq := hentries
    built := hbuilt
    temporal_eq := htemporal
    file_eq := (Option.some.inj h).symm }⟩

/-! ## The chunks -/

/-- The compressor is given the chunks of the nodes with points. -/
lemma writtenOnce (o : IterOrder) (s : WriteSettings) (store : Store)
    (nodeKeys : List (VoxelKey × ℕ)) :
    WrittenOnce s.pointFormat store nodeKeys (writtenState o s store nodeKeys) :=
  writeWindows_writtenOnce o (flatten_windows _)

namespace Writable

variable (hw : Writable laz s store nodeKeys)

include hw

/-- The chunks are small. -/
lemma chunk_small (o : IterOrder) :
    ∀ c ∈ (writtenState o s store nodeKeys).chunks, (laz.compress c).length < 2 ^ 31 := by
  intro c hc
  obtain ⟨e, he, hchunk⟩ :=
    Lists.exists_of_forall₂_right (writtenOnce o s store nodeKeys).chunks hc
  exact hw.chunks e (mem_dataKeys.mp he).1 c hchunk

/-- The point data begins where the header says. -/
lemma length_front : (s.head laz nodeKeys).offsetToPointData.toNat =
    (s.head laz nodeKeys).front.length := by
  have hheader : (s.head laz nodeKeys).header.length = 375 := by
    simp only [FileHead.header, List.length_append, FileHead.length_headerBeforeEvlrStart,
      length_u64, FileHead.length_headerAfterEvlrStart, List.length_replicate]
  rw [FileHead.front, List.length_append, hheader]
  exact FileHead.toNat_offsetToPointData _ _ hw.lazVlr hw.wkt hw.extraBytes

/-- The table is read back as the sizes of the chunks. -/
lemma readChunkTable_eq (o : IterOrder)
    (hlen : ((s.head laz nodeKeys).front ++ laz.pointData (s.head laz nodeKeys).front.length
      (writtenState o s store nodeKeys).chunks).length < 2 ^ 63) :
    laz.readChunkTable ((s.head laz nodeKeys).front ++
        laz.pointData (s.head laz nodeKeys).front.length (writtenState o s store nodeKeys).chunks)
        (s.head laz nodeKeys).offsetToPointData.toNat =
      some ((writtenState o s store nodeKeys).chunks.map fun c =>
        UInt64.ofNat (laz.compress c).length) := by
  rw [hw.length_front]
  exact hw.lawful.table _ _ (fun c hc => (hw.chunk_small o c hc).trans (by norm_num)) hlen

/-- The entries name the places of the chunks in any file that holds them behind the first eight
bytes of the point data. -/
lemma exists_chunkInfo (o : IterOrder) (before rest : List UInt8) {file : List UInt8}
    (hbefore : before.length = (s.head laz nodeKeys).front.length + 8)
    (hfile : file = before ++ (laz.chunkBytes (writtenState o s store nodeKeys).chunks ++ rest))
    (hlen : file.length < 2 ^ 64) :
    ∃ entries, chunkInfo ((writtenState o s store nodeKeys).chunks.map fun c =>
        UInt64.ofNat (laz.compress c).length) (s.head laz nodeKeys).offsetToPointData nodeKeys =
          some entries ∧
      Placed laz.compress file (orderedNodes nodeKeys) (writtenState o s store nodeKeys).chunks
        ((s.head laz nodeKeys).offsetToPointData.toNat + 8) entries := by
  have hlt := (s.head laz nodeKeys).offsetToPointData.toNat_lt
  have hstart : ((s.head laz nodeKeys).offsetToPointData.toUInt64 + 8).toNat =
      (s.head laz nodeKeys).offsetToPointData.toNat + 8 := by
    have height : (8 : UInt64).toNat = 8 := rfl
    rw [UInt64.toNat_add, UInt32.toNat_toUInt64, height]
    exact Nat.mod_eq_of_lt (by omega)
  obtain ⟨entries, hentries, hplaced⟩ := chunkInfoLoop_placed hlen (orderedNodes nodeKeys)
    (hw.chunk_small o) (writtenOnce o s store nodeKeys).chunks.length_eq
    ((s.head laz nodeKeys).offsetToPointData.toUInt64 + 8) 0 rfl before rest
    (by rw [hstart, hw.length_front, hbefore]) hfile
  rw [hstart] at hplaced
  exact ⟨entries, hentries, hplaced⟩

end Writable

/-! ## Positions -/

namespace FileParts

variable (parts : FileParts laz o s store nodeKeys file)

/-- The head as it is after patching. -/
def before : List UInt8 :=
  let patches := patchesOf s (writtenState o s store nodeKeys).stats.finished
    (UInt64.ofNat parts.evlrStart) parts.rootOffset parts.rootSize
  (s.head laz nodeKeys).finalHeader patches ++
    FileHead.writeVlrs ((s.head laz nodeKeys).vlrs patches.info)

/-- The parts in order. -/
lemma file_layout : file = parts.before ++ (parts.pointData ++
    writeEvlrs (hierarchyEvlr parts.payload :: parts.temporal)) := by
  have hfile := parts.file_eq
  rwa [FileHead.output_eq, ← List.append_assoc] at hfile

/-- The head is as long as it was before patching. -/
lemma length_before : parts.before.length = (s.head laz nodeKeys).front.length := by
  have hheader : (s.head laz nodeKeys).header.length = 375 := by
    simp only [FileHead.header, List.length_append, FileHead.length_headerBeforeEvlrStart,
      length_u64, FileHead.length_headerAfterEvlrStart, List.length_replicate]
  rw [before, FileHead.front, List.length_append, List.length_append, FileHead.length_finalHeader,
    hheader, FileHead.length_writeVlrs, FileHead.length_writeVlrs]

/-- The extended records begin behind the point data. -/
lemma evlrStart_eq : parts.evlrStart = (parts.before ++ parts.pointData).length := by
  rw [parts.start, List.length_append, List.length_append, parts.length_before]

variable {parts}

/-- The start of the extended records fits its field. -/
lemma toNat_evlrStart (hlen : file.length < 2 ^ 63) :
    (UInt64.ofNat parts.evlrStart).toNat = parts.evlrStart := by
  have h := congrArg List.length parts.file_layout
  have hstart := parts.evlrStart_eq
  simp only [List.length_append] at h hstart
  exact UInt64.toNat_ofNat_of_lt' (show _ < 2 ^ 64 by omega)

/-- The entries name the places of the chunks. -/
lemma placed (hw : Writable laz s store nodeKeys) (hlen : file.length < 2 ^ 63) :
    Placed laz.compress file (orderedNodes nodeKeys) (writtenState o s store nodeKeys).chunks
      ((s.head laz nodeKeys).offsetToPointData.toNat + 8) parts.entries := by
  have hlayout := parts.file_layout
  have htotal := congrArg List.length hlayout
  have htable := parts.table
  have hpoint := parts.pointData_eq
  rw [List.length_append, List.length_append, parts.length_before] at htotal
  rw [hpoint, hw.readChunkTable_eq o (by rw [← hpoint, List.length_append]; omega)] at htable
  rw [hpoint, LazCodec.pointData, List.append_assoc, List.append_assoc,
    ← List.append_assoc parts.before] at hlayout
  obtain ⟨entries, hentries, hplaced⟩ := hw.exists_chunkInfo o _ _
    (by rw [List.length_append, length_u64, parts.length_before]) hlayout
    (hlen.trans (by norm_num))
  have hsame := parts.chunkInfo_eq
  rw [← Option.some.inj htable, hentries] at hsame
  rwa [← Option.some.inj hsame]

/-! ## The points of an entry -/

variable (parts) in
/-- What a reader finds in the head of the file. -/
def header : CopcHeader where
  pointFormat := s.pointFormat
  recordLength := s.recordLength.toNat
  totalPoints := UInt64.ofNat (nodeKeys.map Prod.snd).sum
  evlrStart := parts.evlrStart
  numEvlrs := if s.temporalIndex.isSome then 2 else 1
  returnCounts := List.ofFn fun k =>
    UInt64.ofNat ((writtenState o s store nodeKeys).stats.finished.returns k)
  info := s.info parts.rootOffset parts.rootSize
    (writtenState o s store nodeKeys).stats.finished.gpsMin
    (writtenState o s store nodeKeys).stats.finished.gpsMax

lemma readCopcHeader_eq (hw : Writable laz s store nodeKeys) (hlen : file.length < 2 ^ 63) :
    readCopcHeader file = some parts.header := by
  have hstart := parts.toNat_evlrStart hlen
  have hread := (s.head laz nodeKeys).readCopcHeader_output hw.format
    (parts.pointData ++ writeEvlrs (hierarchyEvlr parts.payload :: parts.temporal))
    (patchesOf s (writtenState o s store nodeKeys).stats.finished
      (UInt64.ofNat parts.evlrStart) parts.rootOffset parts.rootSize) hw.lazVlr hw.wkt hw.extraBytes
  rw [← parts.file_eq] at hread
  rw [hread, header]
  simp only [patchesOf, hstart]
  rfl

/-- The records are read back. -/
lemma readFileVlrs_eq (parts : FileParts laz o s store nodeKeys file)
    (hw : Writable laz s store nodeKeys) :
    readFileVlrs file = some (((s.head laz nodeKeys).vlrs parts.header.info).map Prod.fst,
      375 + (FileHead.writeVlrs ((s.head laz nodeKeys).vlrs parts.header.info)).length) := by
  have hread := (s.head laz nodeKeys).readFileVlrs_output
    (parts.pointData ++ writeEvlrs (hierarchyEvlr parts.payload :: parts.temporal))
    (patchesOf s (writtenState o s store nodeKeys).stats.finished
      (UInt64.ofNat parts.evlrStart) parts.rootOffset parts.rootSize) hw.lazVlr hw.wkt hw.extraBytes
  rwa [← parts.file_eq] at hread

/-- The entry of a node with points leads to its chunk. -/
lemma pointsOf_chunk (hw : Writable laz s store nodeKeys) {n : VoxelKey × ℕ} (hn : n ∈ nodeKeys)
    (hpos : 0 < n.2) {e : HierarchyEntry} (hcount : e.pointCount = (UInt32.ofNat n.2).toInt32)
    {chunk : List UInt8} (hchunk : IsChunkOf s.pointFormat store n chunk)
    (hsize : e.byteSize.toInt = ((laz.compress chunk).length : ℤ))
    (hslice : slice file e.offset.toNat (laz.compress chunk).length = laz.compress chunk) :
    ∃ pts, parts.header.pointsOf laz file e = some pts ∧
      pts.Perm ((store n.1).map (RawPoint.asWritten s.pointFormat)) ∧
      pts.Pairwise fun p q => notLater p q = true := by
  obtain ⟨pts, ⟨hperm, hordered⟩, rfl⟩ := hchunk
  have hextras : ∀ p ∈ pts, p.extras.length = s.numExtraBytes.toNat := fun p hp =>
    hw.extras n hn p (hperm.mem_iff.mp hp)
  have hnum : e.pointCount.toNatClampNeg = pts.length := by
    rw [hcount, UInt32.toInt32_ofNat', Int32.toNatClampNeg_ofNat_of_lt (hw.points n hn),
      hw.counts n hn, hperm.length_eq]
  have hne : pts.length ≠ 0 := by
    rw [hperm.length_eq, ← hw.counts n hn]
    omega
  have hbytes : e.byteSize.toNatClampNeg =
      (laz.compress (pts.flatMap (encodePoint s.pointFormat))).length := by
    rw [Int32.toNatClampNeg, hsize, Int.toNat_natCast]
  have hlength : (pts.flatMap (encodePoint s.pointFormat)).length =
      pts.length * s.recordLength.toNat := length_flatMap_encodePoint hw.format hw.width hextras
  have hrecord : 0 < s.recordLength.toNat := by
    rw [WriteSettings.recordLength, toNat_pointRecordLength hw.format hw.width]
    rcases hw.format with hf | hf | hf <;> rw [hf] <;> exact Nat.add_pos_left (by decide) _
  have hchunk : pts.flatMap (encodePoint s.pointFormat) ≠ [] := by
    apply List.ne_nil_of_length_pos
    rw [hlength]
    exact Nat.mul_pos (Nat.pos_of_ne_zero hne) hrecord
  have hlossless := hw.lawful.lossless _ hchunk (hlength ▸ Nat.dvd_mul_left _ _)
  refine ⟨pts.map (RawPoint.asWritten s.pointFormat), ?_, hperm.map _,
    List.pairwise_map.mpr (hordered (totalOn_of_numbers (hw.times n hn)))⟩
  have hdecode := decodePoints_flatMap hw.format hw.width hextras
  rw [hlength] at hlossless
  rw [CopcHeader.pointsOf]
  simp only [hnum, hbytes, if_neg hne, hslice]
  exact (congrArg (Option.bind · _) hlossless).trans hdecode

variable (parts) in
/-- An entry leads to the points of a listed node. -/
structure LeadsTo (n : VoxelKey × ℕ) (e : HierarchyEntry) : Prop where
  listed : n ∈ nodeKeys
  key : e.key = n.1
  count : e.pointCount = (UInt32.ofNat n.2).toInt32
  points : ∃ pts, parts.header.pointsOf laz file e = some pts ∧
    pts.Perm ((store n.1).map (RawPoint.asWritten s.pointFormat)) ∧
    pts.Pairwise fun p q => notLater p q = true

/-- The entries belong to the listed nodes, one by one, and lead to their points. -/
lemma leadsTo (hw : Writable laz s store nodeKeys) (hlen : file.length < 2 ^ 63) :
    List.Forall₂ parts.LeadsTo (orderedNodes nodeKeys) parts.entries := by
  have hplaced := parts.placed hw hlen
  have hkeys : List.Forall₂ (fun n e => n.1 = HierarchyEntry.key e) (orderedNodes nodeKeys)
      parts.entries := by
    have heq := List.forall₂_eq_eq_eq ▸ hplaced.keys.symm
    exact List.forall₂_map_left_iff.mp (List.forall₂_map_right_iff.mp heq)
  refine List.forall₂_iff_zip.mpr ⟨hkeys.length_eq, fun {n e} hz => ?_⟩
  have hn : n ∈ nodeKeys := (orderedNodes_perm nodeKeys).mem_iff.mp (List.of_mem_zip hz).1
  have hkey := List.forall₂_zip hkeys hz
  have hcount := hplaced.counts _ hz
  refine ⟨hn, hkey.symm, hcount, ?_⟩
  rcases Nat.eq_zero_or_pos n.2 with hzero | hpos
  · have hempty : e = ⟨n.1, 0, 0, 0⟩ := hplaced.empty _ hz hzero
    have hstore : store n.1 = [] := by
      rw [← List.length_eq_zero_iff, ← hw.counts n hn, hzero]
    refine ⟨[], ?_, by rw [hstore]; exact List.Perm.refl _, List.Pairwise.nil⟩
    rw [hempty]
    rfl
  · have hpair : (n, e) ∈ dataPairs (orderedNodes nodeKeys) parts.entries :=
      List.mem_filter.mpr ⟨hz, decide_eq_true hpos⟩
    have hdata : (dataPairs (orderedNodes nodeKeys) parts.entries).map Prod.fst =
        dataKeys nodeKeys := by
      have hzip : ((orderedNodes nodeKeys).zip parts.entries).map Prod.fst =
          orderedNodes nodeKeys := List.map_fst_zip hkeys.length_eq.le
      rw [dataKeys, ← hzip, List.filter_map, hzip]
      rfl
    have hchunks : List.Forall₂ (fun z chunk => IsChunkOf s.pointFormat store z.1 chunk)
        (dataPairs (orderedNodes nodeKeys) parts.entries)
        (writtenState o s store nodeKeys).chunks := by
      rw [← List.forall₂_map_left_iff (f := Prod.fst), hdata]
      exact (writtenOnce o s store nodeKeys).chunks
    obtain ⟨chunk, -, ⟨hsize, hslice⟩, hchunk⟩ :=
      Lists.exists_of_forall₂_left hplaced.own hchunks hpair
    exact pointsOf_chunk hw hn hpos hcount hchunk hsize hslice

/-! ## The hierarchy in the file -/

/-- The payload of the hierarchy is an index of the entries. -/
lemma hierarchyIndex (hw : Writable laz s store nodeKeys) (hlen : file.length < 2 ^ 63) :
    HierarchyIndex parts.entries parts.payload
      (UInt64.ofNat parts.evlrStart + UInt64.ofNat evlrHeaderSize) parts.rootOffset
      parts.rootSize := by
  have hspec := parts.leadsTo hw hlen
  have hentry : ∀ e ∈ parts.entries, e.key.FitsI32 ∧ 0 ≤ e.pointCount := by
    intro e he
    obtain ⟨n, -, hn⟩ := Lists.exists_of_forall₂_right hspec he
    refine ⟨hn.key ▸ hw.keys n hn.listed, ?_⟩
    have hlt := hw.points n hn.listed
    rw [hn.count, UInt32.toInt32_ofNat', Int32.le_iff_toInt_le, Int32.toInt_ofNat_of_lt hlt]
    exact Int.natCast_nonneg _
  have hnodup : (parts.entries.map HierarchyEntry.key).Nodup := by
    rw [(parts.placed hw hlen).keys, ((orderedNodes_perm nodeKeys).map Prod.fst).nodup_iff]
    exact hw.nodup
  exact hierarchyIndex_of_build hnodup (fun e he => (hentry e he).1) (fun e he => (hentry e he).2)
    parts.built

/-- The payload of the hierarchy lies in the file behind the header of its record. -/
lemma payload_layout (hlen : file.length < 2 ^ 63) : ∃ front after : List UInt8,
    file = front ++ (parts.payload ++ after) ∧
      front.length = parts.evlrStart + evlrHeaderSize ∧
      front.length = (UInt64.ofNat parts.evlrStart + UInt64.ofNat evlrHeaderSize).toNat := by
  obtain ⟨evlrHeader, hheader, heq⟩ := exists_writeEvlr_eq (hierarchyEvlr parts.payload).1
    (hierarchyEvlr parts.payload).2
  have hlayout := parts.file_layout
  rw [writeEvlrs, List.flatMap_cons, heq, List.append_assoc, ← List.append_assoc parts.before,
    ← List.append_assoc (parts.before ++ parts.pointData)] at hlayout
  have hfront : ((parts.before ++ parts.pointData) ++ evlrHeader).length =
      parts.evlrStart + evlrHeaderSize := by
    rw [List.length_append, ← parts.evlrStart_eq, hheader]
  refine ⟨_, _, hlayout, hfront, ?_⟩
  have htotal := congrArg List.length hlayout
  rw [List.length_append, hfront] at htotal
  have hsize : (UInt64.ofNat evlrHeaderSize).toNat = evlrHeaderSize := rfl
  rw [hfront, UInt64.toNat_add, parts.toNat_evlrStart hlen, hsize]
  exact (Nat.mod_eq_of_lt (by omega)).symm

/-- Behind the hierarchy lies the temporal index, if it is asked for. -/
lemma temporal_cases (parts : FileParts laz o s store nodeKeys file) :
    (s.temporalIndex = none ∧ parts.temporal = []) ∨
      ∃ stride payload, s.temporalIndex = some stride ∧
        writeTemporalIndex o stride store nodeKeys
          (UInt64.ofNat (parts.evlrStart + (writeEvlrs [hierarchyEvlr parts.payload]).length) +
            UInt64.ofNat evlrHeaderSize) = some payload ∧
        parts.temporal = [temporalEvlr payload] := by
  have htemporal := parts.temporal_eq
  unfold temporalEvlrs at htemporal
  split at htemporal
  · rename_i hnone
    exact Or.inl ⟨hnone, (Option.some.inj htemporal).symm⟩
  · rename_i stride hstride
    obtain ⟨payload, hpayload, heq⟩ := Option.map_eq_some_iff.mp htemporal
    rw [writtenState, hstride, temporalEntries_writeWindows] at hpayload
    exact Or.inr ⟨stride, payload, hstride, hpayload, heq.symm⟩

/-- The names of the extended records are read back. -/
lemma wellNamed_evlrs (parts : FileParts laz o s store nodeKeys file) :
    ∀ v ∈ hierarchyEvlr parts.payload :: parts.temporal, WellNamed v.1 := by
  intro v hv
  have hid : v.1.userId = ascii "copc" ∨ v.1.userId = ascii "copc_temporal" := by
    rcases List.mem_cons.mp hv with rfl | hv
    · exact Or.inl rfl
    · rcases parts.temporal_cases with ⟨-, hnone⟩ | ⟨_, payload, -, -, hsome⟩
      · rw [hnone] at hv
        cases hv
      · rw [hsome, List.mem_singleton] at hv
        exact Or.inr (hv ▸ rfl)
  rcases hid with hid | hid <;> rw [WellNamed, hid] <;> decide +kernel

/-- The extended records are read back, and the file ends with them. -/
lemma readEvlrs_eq (hlen : file.length < 2 ^ 63) :
    readEvlrs file (1 + parts.temporal.length) parts.evlrStart =
      some ((hierarchyEvlr parts.payload).1 :: parts.temporal.map Prod.fst, file.length) := by
  have hlayout := parts.file_layout
  rw [← List.append_assoc] at hlayout
  have htotal := congrArg List.length hlayout
  rw [List.length_append] at htotal
  have hread := readEvlrs_writeEvlrs parts.wellNamed_evlrs (parts.before ++ parts.pointData) []
    (by omega)
  rw [List.append_nil, ← hlayout, ← parts.evlrStart_eq, List.length_cons, List.map_cons] at hread
  rw [Nat.add_comm, hread, htotal, parts.evlrStart_eq]

/-! ## The statistics in the header -/

/-- The number of points in the header. -/
lemma sum_counts (hw : Writable laz s store nodeKeys) :
    (nodeKeys.map Prod.snd).sum = (writtenPoints store nodeKeys).length := by
  have hcount : ∀ n ∈ orderedNodes nodeKeys, n.2 = (store n.1).length := fun n hn =>
    hw.counts n ((orderedNodes_perm nodeKeys).mem_iff.mp hn)
  rw [writtenPoints_eq hw.counts, List.length_flatMap, ← List.map_congr_left hcount]
  exact ((orderedNodes_perm nodeKeys).map Prod.snd).sum_eq.symm

/-- The counts by return in the header. -/
lemma getElem?_returnCounts (parts : FileParts laz o s store nodeKeys file) (k : Fin 15) :
    parts.header.returnCounts[k.val]? = some (UInt64.ofNat
      ((writtenPoints store nodeKeys).countP fun p => p.returnNumber.toNat = k.val + 1)) := by
  have hsame := (writtenOnce o s store nodeKeys).finished.returns
  have hreturns : ∀ st : PointStats, st.finished.returns = st.returns := by
    intro st
    rw [PointStats.finished]
    split_ifs <;> rfl
  have hcount : (pointStats (writtenPoints store nodeKeys)).returns k =
      0 + (writtenPoints store nodeKeys).countP fun p => p.returnNumber.toNat = k.val + 1 := by
    rw [pointStats, PointStats.foldl_add]
    rfl
  rw [header]
  simp only [List.getElem?_ofFn, k.isLt, dite_true, hsame, hreturns, hcount, Nat.zero_add]

/-! ## All points -/

/-- All entries together lead to all written points. -/
lemma exists_allPoints (hw : Writable laz s store nodeKeys) (hlen : file.length < 2 ^ 63)
    {es : List HierarchyEntry} (hperm : es.Perm parts.entries) : ∃ pts : List (List RawPoint),
    (es.mapM fun e => parts.header.pointsOf laz file e) = some pts ∧
      pts.flatten.Perm
        ((writtenPoints store nodeKeys).map (RawPoint.asWritten s.pointFormat)) := by
  have hspec := parts.leadsTo hw hlen
  have hkeys := (parts.placed hw hlen).keys
  obtain ⟨pts, hpts, hpoints⟩ := @Lists.exists_mapM_perm _ _ (parts.header.pointsOf laz file)
    (fun e => (store e.key).map (RawPoint.asWritten s.pointFormat)) es fun e he => by
      obtain ⟨n, -, hn⟩ := Lists.exists_of_forall₂_right hspec (hperm.mem_iff.mp he)
      obtain ⟨pts, hpts, hperm, -⟩ := hn.points
      rw [hn.key]
      exact ⟨pts, hpts, hperm⟩
  refine ⟨pts, hpts, (hpoints.trans (hperm.flatMap_right _)).trans ?_⟩
  rw [writtenPoints_eq hw.counts, List.map_flatMap,
    ← List.flatMap_map HierarchyEntry.key fun k => (store k).map (RawPoint.asWritten s.pointFormat),
    hkeys, List.flatMap_map]

/-! ## The whole file -/

/-- A written file is read back. -/
lemma readsBack (parts : FileParts laz o s store nodeKeys file)
    (hw : Writable laz s store nodeKeys) (hlen : file.length < 2 ^ 63) :
    ReadsBack laz s store nodeKeys file parts.header := by
  have hindex := parts.hierarchyIndex hw hlen
  have hspec := parts.leadsTo hw hlen
  obtain ⟨front, after, hlayout, hstart, hfront⟩ := parts.payload_layout hlen
  have htotal : (front ++ (parts.payload ++ after)).length < 2 ^ 64 := by
    rw [← hlayout]
    omega
  obtain ⟨pages, need, hwalk, hperm, htiles⟩ := hindex.walked
  -- the walk through the payload is a walk through the file
  have hpages : ∀ fuel, need ≤ fuel →
      walk (readPage parseHierarchy file 0) fuel parts.header.rootPage = some pages := by
    intro fuel hfuel
    have hfile := walk_file hfront htotal (hwalk fuel hfuel)
    rwa [← hlayout] at hfile
  refine ⟨parts.readCopcHeader_eq hw hlen, rfl, rfl, ?_, parts.getElem?_returnCounts, ?_,
    ⟨_, parts.readFileVlrs_eq hw⟩, ?_, ?_, ?_⟩
  · rw [← sum_counts hw]
    rfl
  · have hsame := (writtenOnce o s store nodeKeys).finished
    exact ⟨hsame.gpsMin, hsame.gpsMax⟩
  · intro n hn
    have hmem : n ∈ orderedNodes nodeKeys := (orderedNodes_perm nodeKeys).mem_iff.mpr hn
    obtain ⟨entry, hentry, hleads, -⟩ := Lists.exists_of_forall₂_left hspec hspec hmem
    obtain ⟨pts, hpts, hpoints⟩ := hleads.points
    obtain ⟨need, hfound⟩ := hindex.found entry hentry
    refine ⟨entry, pts, need, fun fuel hfuel => ?_, hpts, hpoints⟩
    have hfile := seek_file hfront htotal (hfound fuel hfuel)
    rw [← hlayout, hleads.key] at hfile
    exact hfile
  · obtain ⟨pts, hpts, hpoints⟩ := exists_allPoints hw hlen hperm
    refine ⟨pts.flatten, need, fun fuel hfuel => ?_, hpoints⟩
    rw [CopcHeader.allPoints, CopcHeader.hierarchy, hpages fuel hfuel, Option.map_some,
      Option.bind_some, hpts, Option.map_some]
  · have hread := parts.readEvlrs_eq hlen
    have hpos : UInt64.ofNat (parts.header.evlrStart + evlrHeaderSize) =
        UInt64.ofNat parts.evlrStart + UInt64.ofNat evlrHeaderSize := UInt64.ofNat_add _ _
    refine ⟨parts.payload, parts.temporal.map Prod.fst, ?_, ?_, pages, need, hpages, ?_⟩
    · have hnum : parts.header.numEvlrs = 1 + parts.temporal.length := by
        rw [header]
        rcases parts.temporal_cases with ⟨hnone, hnil⟩ | ⟨_, _, hsome, -, hone⟩
        · rw [hnone, hnil]
          rfl
        · rw [hsome, hone]
          rfl
      rw [hnum]
      exact hread
    · rcases parts.temporal_cases with ⟨hnone, hnil⟩ | ⟨_, _, hsome, -, hone⟩
      · rw [hnone, hnil]
        rfl
      · rw [hsome, hone]
        rfl
    · rw [hpos]
      exact htiles

end FileParts

/-! ## Writing succeeds -/

/-- The pages of the hierarchy together are 32 bytes for every entry and every boundary. -/
lemma sum_hierarchyPages_le {es : List HierarchyEntry} {bs : List ℕ}
    (hbs : choosePageBoundaries (maxLevelOf (es.map HierarchyEntry.key)) = some bs) :
    (pageSizes ((pagesFrom splitHierarchy bs es 0).map hierarchyFormat.page)).sum ≤
      32 * (es.length * (maxLevelOf (es.map HierarchyEntry.key) / 3 + 1)) := by
  have hlen := (choosePageBoundaries_ladder hbs).length_le le_rfl
  have hrecords := pagesFrom_length_le splitHierarchy_perm
    (fun b es g hg => (mem_splitHierarchy hg).2.1) bs es 0
  rw [sum_pageSizes]
  refine Nat.mul_le_mul_left 32 (hrecords.trans (Nat.mul_le_mul_left _ ?_))
  omega

/-- The payload of the hierarchy is built when it fits. -/
lemma exists_buildHierarchyPayload {es : List HierarchyEntry}
    (hlevel : ∀ e ∈ es, e.key.level < 2 ^ 31 - 1)
    (hsize : 32 * (es.length * (maxLevelOf (es.map HierarchyEntry.key) / 3 + 1)) ≤ isizeMax)
    (evlrDataStart : UInt64) : ∃ built, buildHierarchyPayload es evlrDataStart = some built := by
  by_cases hne : es = []
  · subst hne
    exact ⟨_, rfl⟩
  obtain ⟨bs, hbs⟩ := exists_choosePageBoundaries (maxLevelOf_lt (by norm_num) fun k hk => by
    obtain ⟨e, he, rfl⟩ := List.mem_map.mp hk
    exact hlevel e he)
  rw [buildHierarchyPayload_eq hne hbs]
  exact ⟨_, if_pos ((sum_hierarchyPages_le hbs).trans hsize)⟩

/-- The size of the payload of the hierarchy. -/
lemma length_hierarchyPayload_le {es : List HierarchyEntry} {evlrDataStart : UInt64}
    {payload : List UInt8} {root : UInt64 × UInt64}
    (h : buildHierarchyPayload es evlrDataStart = some (payload, root)) :
    payload.length ≤ 32 * (es.length * (maxLevelOf (es.map HierarchyEntry.key) / 3 + 1)) := by
  by_cases hne : es = []
  · subst hne
    obtain ⟨rfl, -⟩ := Prod.mk.inj (Option.some.inj h)
    exact Nat.zero_le _
  obtain ⟨bs, hbs⟩ : ∃ bs,
      choosePageBoundaries (maxLevelOf (es.map HierarchyEntry.key)) = some bs := by
    rw [buildHierarchyPayload, if_neg (by rwa [List.isEmpty_iff])] at h
    obtain ⟨bs, hbs, -⟩ := Option.bind_eq_some_iff.mp h
    exact ⟨bs, hbs⟩
  rw [buildHierarchyPayload_eq hne hbs] at h
  simp only at h
  split_ifs at h
  obtain ⟨rfl, -⟩ := Prod.mk.inj (Option.some.inj h)
  rw [length_flatten_patchPages]
  exact sum_hierarchyPages_le hbs

/-- The temporal index is built when it fits. -/
lemma exists_temporalEvlrs (hfits : FitsFile laz o s store nodeKeys) (pos : ℕ) :
    ∃ evlrs, temporalEvlrs s.temporalIndex (writtenState o s store nodeKeys).temporalEntries pos =
      some evlrs := by
  rw [writtenState]
  cases h : s.temporalIndex with
  | none => exact ⟨[], rfl⟩
  | some stride =>
    rw [temporalEntries_writeWindows]
    by_cases hne : temporalEntries o stride store nodeKeys = []
    · rw [hne]
      exact ⟨_, rfl⟩
    have hlevel : ∀ k ∈ (temporalEntries o stride store nodeKeys).map TemporalIndexEntry.key,
        k.level < 2 ^ 31 - 1 := by
      intro k hk
      have hkeys := (encodeNodes_spec o stride.value.toNat store nodeKeys).1
      rw [temporalEntries, List.map_map] at hk
      change k ∈ (encodeNodes o stride.value.toNat store nodeKeys).map Prod.fst at hk
      rw [hkeys] at hk
      obtain ⟨n, hn, rfl⟩ := List.mem_map.mp hk
      exact hfits.levels n (mem_dataKeys.mp hn).1
    obtain ⟨bs, hbs⟩ := exists_choosePageBoundaries (maxLevelOf_lt (by norm_num) hlevel)
    obtain ⟨hpages, hpayload⟩ := buildTemporalPayload_eq hne hbs stride.value
      (UInt64.ofNat pos + UInt64.ofNat evlrHeaderSize)
    have hsum := hfits.temporal stride h _ hpages
    simp only at hpayload
    rw [if_pos hsum] at hpayload
    exact ⟨_, congrArg (Option.map fun payload => [temporalEvlr payload]) hpayload⟩

/-- The file is written when its parts fit. -/
lemma exists_writeCopc (hw : Writable laz s store nodeKeys)
    (hfits : FitsFile laz o s store nodeKeys) :
    ∃ file, writeCopc laz o s store nodeKeys = some file := by
  have htable := hw.readChunkTable_eq o hfits.pointData
  obtain ⟨entries, hentries, hplaced⟩ := hw.exists_chunkInfo o
    (List.replicate ((s.head laz nodeKeys).front.length + 8) 0) [] List.length_replicate rfl (by
      have hlen := hfits.pointData
      rw [← writtenState, LazCodec.pointData] at hlen
      simp only [List.length_append, length_u64, List.length_replicate, List.length_nil] at hlen ⊢
      omega)
  have hkeys : entries.map HierarchyEntry.key = (orderedNodes nodeKeys).map Prod.fst := hplaced.keys
  have hcount : entries.length = nodeKeys.length := by
    have h := congrArg List.length hkeys
    rwa [List.length_map, List.length_map, (orderedNodes_perm nodeKeys).length_eq] at h
  have hlevel : ∀ e ∈ entries, e.key.level < 2 ^ 31 - 1 := by
    intro e he
    have hmem := List.mem_map_of_mem (f := HierarchyEntry.key) he
    rw [hkeys] at hmem
    obtain ⟨n, hn, hkey⟩ := List.mem_map.mp hmem
    exact hkey ▸ hfits.levels n ((orderedNodes_perm nodeKeys).mem_iff.mp hn)
  have hsize : 32 * (entries.length * (maxLevelOf (entries.map HierarchyEntry.key) / 3 + 1)) ≤
      isizeMax := by
    rw [hcount, hkeys]
    exact hfits.hierarchy
  obtain ⟨⟨payload, rootOffset, rootSize⟩, hbuilt⟩ := exists_buildHierarchyPayload hlevel hsize
    (UInt64.ofNat ((s.head laz nodeKeys).front ++ laz.pointData (s.head laz nodeKeys).front.length
      (writtenState o s store nodeKeys).chunks).length + UInt64.ofNat evlrHeaderSize)
  obtain ⟨evlrs, hevlrs⟩ := exists_temporalEvlrs hfits
    (((s.head laz nodeKeys).front ++ laz.pointData (s.head laz nodeKeys).front.length
      (writtenState o s store nodeKeys).chunks).length +
        (writeEvlrs [hierarchyEvlr payload]).length)
  refine ⟨_, Option.bind_eq_some_iff.mpr ⟨_, htable, Option.bind_eq_some_iff.mpr
    ⟨entries, hentries, Option.bind_eq_some_iff.mpr ⟨_, hbuilt, Option.bind_eq_some_iff.mpr
      ⟨evlrs, hevlrs, rfl⟩⟩⟩⟩⟩

/-- **The round trip of the whole file.**  The file is written when its parts fit; and whenever it
is written, a reader finds the points of every listed node in it, and no others. -/
theorem writeCopc_readsBack (hw : Writable laz s store nodeKeys) (o : IterOrder) :
    (FitsFile laz o s store nodeKeys → ∃ file, writeCopc laz o s store nodeKeys = some file) ∧
      ∀ file, writeCopc laz o s store nodeKeys = some file → file.length < 2 ^ 63 →
        ∃ header, ReadsBack laz s store nodeKeys file header := by
  refine ⟨fun hfits => exists_writeCopc hw hfits, fun file h hlen => ?_⟩
  obtain ⟨parts⟩ := exists_fileParts h
  exact ⟨parts.header, parts.readsBack hw hlen⟩

end Parts

/-! ## The size of the file -/

/-- The entries have the keys of the nodes. -/
lemma keys_chunkInfoLoop {chunkTable : List UInt64} {nodes : List (VoxelKey × ℕ)} {pos : UInt64}
    {idx : ℕ} {entries : List HierarchyEntry}
    (h : chunkInfoLoop chunkTable nodes pos idx = some entries) :
    entries.map HierarchyEntry.key = nodes.map Prod.fst := by
  induction nodes generalizing pos idx entries with
  | nil =>
    obtain rfl := Option.some.inj h
    rfl
  | cons n nodes ih =>
    rw [chunkInfoLoop] at h
    split_ifs at h
    · obtain ⟨rest, hrest, rfl⟩ := Option.map_eq_some_iff.mp h
      rw [List.map_cons, List.map_cons, ih hrest]
    · obtain ⟨byteCount, -, h⟩ := Option.bind_eq_some_iff.mp h
      obtain ⟨rest, hrest, rfl⟩ := Option.map_eq_some_iff.mp h
      rw [List.map_cons, List.map_cons, ih hrest]

/-- The parts that may be long are the point data and the temporal index. -/
lemma FileParts.length_file_le {laz : LazCodec} {o : IterOrder} {s : WriteSettings} {store : Store}
    {nodeKeys : List (VoxelKey × ℕ)} {file : List UInt8}
    (parts : FileParts laz o s store nodeKeys file) :
    file.length ≤ ((s.head laz nodeKeys).front ++ laz.pointData (s.head laz nodeKeys).front.length
      (writtenState o s store nodeKeys).chunks).length + evlrHeaderSize + 32 * (nodeKeys.length *
        (maxLevelOf ((orderedNodes nodeKeys).map Prod.fst) / 3 + 1)) +
          (writeEvlrs parts.temporal).length := by
  have hkeys := keys_chunkInfoLoop parts.chunkInfo_eq
  have hcount := congrArg List.length hkeys
  rw [List.length_map, List.length_map, (orderedNodes_perm nodeKeys).length_eq] at hcount
  have hpayload := length_hierarchyPayload_le parts.built
  rw [hkeys, hcount] at hpayload
  have htotal := congrArg List.length parts.file_layout
  have hevlr : (writeEvlr (hierarchyEvlr parts.payload).1
      (hierarchyEvlr parts.payload).2).length = evlrHeaderSize + parts.payload.length :=
    length_writeEvlr _ _
  rw [writeEvlrs, List.flatMap_cons, ← writeEvlrs, List.length_append, List.length_append,
    List.length_append, parts.length_before, hevlr, parts.pointData_eq] at htotal
  rw [List.length_append]
  omega

/-- The file without a temporal index. -/
lemma length_file_le {laz : LazCodec} {o : IterOrder} {s : WriteSettings} {store : Store}
    {nodeKeys : List (VoxelKey × ℕ)} {file : List UInt8} (hnone : s.temporalIndex = none)
    (h : writeCopc laz o s store nodeKeys = some file) :
    file.length ≤ ((s.head laz nodeKeys).front ++ laz.pointData (s.head laz nodeKeys).front.length
      (writtenState o s store nodeKeys).chunks).length + evlrHeaderSize + 32 * (nodeKeys.length *
        (maxLevelOf ((orderedNodes nodeKeys).map Prod.fst) / 3 + 1)) := by
  obtain ⟨parts⟩ := exists_fileParts h
  have hnil : parts.temporal = [] := by
    rcases parts.temporal_cases with ⟨-, hnil⟩ | ⟨_, _, hsome, -⟩
    · exact hnil
    · rw [hnone] at hsome
      cases hsome
  have hnone : (writeEvlrs parts.temporal).length = 0 := by
    rw [hnil]
    rfl
  have hlen := parts.length_file_le
  omega

/-! ## A file with a few nodes -/

/-- The library without compression: chunks are stored as they are, and the table is their number
and their sizes. -/
def storedLaz : LazCodec where
  vlrPayload := []
  compress := id
  decompress bytes n := if bytes.length = n then some bytes else none
  chunkTable chunks := u64 (UInt64.ofNat chunks.length) ++
    (chunks.map fun c => UInt64.ofNat c.length).flatMap u64
  readChunkTable file pos :=
    let table := (readU64 file pos).toNat
    some ((List.range (readU64 file table).toNat).map fun k => readU64 file (table + 8 + 8 * k))

/-- A number behind a part of a file is read back. -/
lemma readU64_behind (before rest : List UInt8) (n : UInt64) :
    readU64 (before ++ (u64 n ++ rest)) before.length = n := by
  have h := slice_from before (u64 n ++ rest) 0 8
  rw [Nat.add_zero, slice_here _ (length_u64 n)] at h
  rw [readU64_eq, h, ofNat_ofLE_u64]

lemma storedLaz_lawful (recordLength : ℕ) : storedLaz.Lawful recordLength where
  lossless chunk _ _ := if_pos rfl
  table before chunks _ hlen := by
    obtain ⟨data, hdata⟩ : ∃ data, data = storedLaz.chunkBytes chunks := ⟨_, rfl⟩
    obtain ⟨sizes, hsizes⟩ : ∃ sizes, sizes = chunks.map fun c => UInt64.ofNat c.length := ⟨_, rfl⟩
    have hfile : before ++ storedLaz.pointData before.length chunks =
        before ++ (u64 (UInt64.ofNat (before.length + 8 + data.length)) ++
          (data ++ (u64 (UInt64.ofNat chunks.length) ++ (sizes.flatMap u64 ++ [])))) := by
      rw [LazCodec.pointData, ← hdata, List.append_nil, hsizes]
      rfl
    have htotal := congrArg List.length hfile
    simp only [List.length_append, length_u64, List.length_flatMap, List.map_const',
      List.sum_replicate, smul_eq_mul, List.length_nil] at htotal hlen
    have hcount : chunks.length = sizes.length := by rw [hsizes, List.length_map]
    have hpos : (UInt64.ofNat (before.length + 8 + data.length)).toNat =
        (before ++ (u64 (UInt64.ofNat (before.length + 8 + data.length)) ++ data)).length := by
      rw [UInt64.toNat_ofNat_of_lt' (show _ < 2 ^ 64 by omega)]
      simp only [List.length_append, length_u64]
      omega
    have htable := readU64_behind before (data ++ (u64 (UInt64.ofNat chunks.length) ++
      (sizes.flatMap u64 ++ []))) (UInt64.ofNat (before.length + 8 + data.length))
    have hnum := readU64_behind
      (before ++ (u64 (UInt64.ofNat (before.length + 8 + data.length)) ++ data))
      (sizes.flatMap u64 ++ []) (UInt64.ofNat chunks.length)
    have hall := map_readU64_flatMap sizes
      (before ++ (u64 (UInt64.ofNat (before.length + 8 + data.length)) ++
        (data ++ u64 (UInt64.ofNat chunks.length)))) []
    simp only [List.append_assoc] at hnum hall
    have hsize : (UInt64.ofNat chunks.length).toNat = sizes.length := by
      rw [UInt64.toNat_ofNat_of_lt' (show _ < 2 ^ 64 by omega), hcount]
    have hbehind : (before ++ (u64 (UInt64.ofNat (before.length + 8 + data.length)) ++
        (data ++ u64 (UInt64.ofNat chunks.length)))).length =
          (before ++
            (u64 (UInt64.ofNat (before.length + 8 + data.length)) ++ data)).length + 8 := by
      simp only [List.length_append, length_u64]
      omega
    rw [hbehind] at hall
    have hread : ∀ file pos, storedLaz.readChunkTable file pos =
        some ((List.range (readU64 file (readU64 file pos).toNat).toNat).map fun k =>
          readU64 file ((readU64 file pos).toNat + 8 + 8 * k)) := fun _ _ => rfl
    rw [hfile, hread, htable, hpos, hnum, hsize, hall, hsizes]
    rfl

/-- Settings for points of format 6, without optional records. -/
def soleSettings : WriteSettings where
  pointFormat := 6
  numExtraBytes := 0
  scaleX := ⟨0⟩
  scaleY := ⟨0⟩
  scaleZ := ⟨0⟩
  offsetX := ⟨0⟩
  offsetY := ⟨0⟩
  offsetZ := ⟨0⟩
  maxX := ⟨0⟩
  minX := ⟨0⟩
  maxY := ⟨0⟩
  minY := ⟨0⟩
  maxZ := ⟨0⟩
  minZ := ⟨0⟩
  cx := ⟨0⟩
  cy := ⟨0⟩
  cz := ⟨0⟩
  halfsize := ⟨0⟩
  spacing := ⟨0⟩
  wktCrs := none
  extraBytesVlr := none
  temporalIndex := none

/-- What is written before the extended records, when the library stores the chunks as they are: a
record for every point, and eight bytes for every chunk beside the head. -/
lemma Writable.length_stored {s : WriteSettings} {store : Store} {nodeKeys : List (VoxelKey × ℕ)}
    (hw : Writable storedLaz s store nodeKeys) (o : IterOrder) :
    ((s.head storedLaz nodeKeys).front ++
      storedLaz.pointData (s.head storedLaz nodeKeys).front.length
        (writtenState o s store nodeKeys).chunks).length =
      (s.head storedLaz nodeKeys).offsetToPointData.toNat + 16 +
        (writtenPoints store nodeKeys).length * s.recordLength.toNat +
        8 * (dataKeys nodeKeys).length := by
  have honce := writtenOnce o s store nodeKeys
  obtain ⟨written, hperm, hflat, -⟩ := honce.stats
  have hextras : ∀ p ∈ written, p.extras.length = s.numExtraBytes.toNat := by
    intro p hp
    obtain ⟨e, he, hp⟩ := (mem_writtenPoints hw.counts).mp (hperm.mem_iff.mp hp)
    exact hw.extras e he p hp
  have hrecords : (writtenState o s store nodeKeys).chunks.flatten.length =
      (writtenPoints store nodeKeys).length * s.recordLength.toNat := by
    rw [hflat, length_flatMap_encodePoint hw.format hw.width hextras, hperm.length_eq]
    rfl
  have hbytes : ∀ chunks, storedLaz.chunkBytes chunks = chunks.flatten := fun _ => List.flatMap_id
  have htable : ∀ chunks, (storedLaz.chunkTable chunks).length = 8 + 8 * chunks.length := by
    intro chunks
    change (u64 _ ++ (chunks.map fun c => UInt64.ofNat c.length).flatMap u64).length = _
    rw [List.length_append, length_u64, List.length_flatMap, List.map_map, mul_comm]
    simp only [Function.comp_def, length_u64, List.map_const', List.sum_replicate, smul_eq_mul]
  rw [List.length_append, LazCodec.pointData, List.length_append, List.length_append, length_u64,
    htable, hbytes, hrecords, hw.length_front, honce.chunks.length_eq]
  omega

lemma writable_few : Writable storedLaz soleSettings fewStore fewNodes where
  lawful := storedLaz_lawful _
  format := Or.inl rfl
  width := by decide
  nodup := by decide
  counts := fewStore_counts
  extras := by decide +kernel
  times e he p hp := (fewStore_times e he p hp).1
  keys := by
    unfold VoxelKey.FitsI32
    decide
  points := by decide
  chunks e he chunk hchunk := by
    obtain ⟨sorted, hsorted, rfl⟩ := hchunk
    change (sorted.flatMap (encodePoint 6)).length < _
    rw [(hsorted.perm.flatMap_right _).length_eq]
    exact (show ∀ e ∈ fewNodes, ((fewStore e.1).flatMap (encodePoint 6)).length < 2 ^ 31 by
      decide +kernel) e he
  lazVlr := by decide
  wkt d hd := by cases hd
  extraBytes d hd := by cases hd

/-- There are six points on four levels. -/
lemma length_few {s : WriteSettings} (hw : Writable storedLaz s fewStore fewNodes)
    (hfront : (s.head storedLaz fewNodes).offsetToPointData.toNat = 643)
    (hrecord : s.recordLength.toNat = 30) (o : IterOrder) :
    ((s.head storedLaz fewNodes).front ++
      storedLaz.pointData (s.head storedLaz fewNodes).front.length
        (writtenState o s fewStore fewNodes).chunks).length = 863 ∧
      maxLevelOf ((orderedNodes fewNodes).map Prod.fst) = 4 := by
  have hpoints : (writtenPoints fewStore fewNodes).length = 6 := by
    rw [writtenPoints, dataKeys_few]
    rfl
  constructor
  · rw [hw.length_stored o, hfront, hpoints, hrecord, dataKeys_few]
    rfl
  · rw [orderedNodes_few]
    rfl

/-- A file with three nodes that have points is written and read back. -/
theorem writeCopc_readsBack_few : ∃ file header,
    writeCopc storedLaz .listed soleSettings fewStore fewNodes = some file ∧
      ReadsBack storedLaz soleSettings fewStore fewNodes file header := by
  obtain ⟨hwritten, hread⟩ := writeCopc_readsBack writable_few .listed
  obtain ⟨hdata, hlevel⟩ := length_few writable_few (by decide +kernel) (by decide) .listed
  obtain ⟨file, hfile⟩ := hwritten
    { levels := by decide
      hierarchy := by rw [hlevel]; decide
      temporal := fun stride hstride => by cases hstride
      pointData := by
        rw [← writtenState, hdata]
        norm_num }
  have hlen := length_file_le rfl hfile
  rw [hdata, hlevel] at hlen
  obtain ⟨header, hheader⟩ := hread file hfile (hlen.trans_lt (by decide))
  exact ⟨file, header, hfile, hheader⟩

end CopcConverter
