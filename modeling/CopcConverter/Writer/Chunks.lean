import CopcConverter.Foundations.RunningBest
import CopcConverter.Writer.Hierarchy
import CopcConverter.Writer.TimeRanges

/-!
# The chunks

Window after window, the nodes with points are encoded and handed to the compressor as one chunk
each, while the number of points of each return and the range of GPS times are summed up.  The
compressor writes the chunks one after the other; the sizes are read back from its chunk table, and
from them every node gets the place of its chunk.  Here a node is always given its own chunk,
however the nodes are cut into windows, and what is summed up is what one pass over all written
points gives.

The loop does not always get to its end: the points of a node are sorted by a comparison that times
which are not numbers keep from being an order, and the sort may panic then.  It gets to its end,
whatever the sorts of its nodes do as long as they do what they promise, exactly when the comparison
orders the points of every node.
-/

namespace CopcConverter

open PageBytes

/-! ## Encoding a point -/

/-- The return number in the low four bits, the number of returns in the high ones. -/
def returnByte (rp : RawPoint) : UInt8 :=
  (rp.returnNumber &&& (0x0F : UInt8)) |||
    ((rp.numberOfReturns &&& (0x0F : UInt8)) <<< (4 : UInt8))

/-- The fields that all output formats share (30 bytes). -/
def encodePointBase (rp : RawPoint) : List UInt8 :=
  i32Bytes rp.x ++ (i32Bytes rp.y ++ (i32Bytes rp.z ++ (Bytes.toLE 2 rp.intensity.toNat ++
    ([returnByte rp, 0, rp.classification, rp.userData] ++
    (Bytes.toLE 2 rp.scanAngle.toUInt16.toNat ++ (Bytes.toLE 2 rp.pointSourceId.toNat ++
      Bytes.u64 rp.gpsTime))))))

/-- A point in the output format (6, 7 or 8), the extra bytes last. -/
def encodePoint (fmt : UInt8) (rp : RawPoint) : List UInt8 :=
  encodePointBase rp ++
    ((if fmt ≥ 7 then Bytes.toLE 2 rp.red.toNat ++ (Bytes.toLE 2 rp.green.toNat ++
        Bytes.toLE 2 rp.blue.toNat) else []) ++
      ((if fmt ≥ 8 then Bytes.toLE 2 rp.nir.toNat else []) ++ rp.extras))

/-- A point takes 30, 36 or 38 bytes and its extra bytes. -/
lemma length_encodePoint (fmt : UInt8) (rp : RawPoint) :
    (encodePoint fmt rp).length =
      30 + (if fmt ≥ 7 then 6 else 0) + (if fmt ≥ 8 then 2 else 0) + rp.extras.length := by
  have hbase : (encodePointBase rp).length = 30 := by
    simp [encodePointBase, i32Bytes]
  rw [encodePoint, List.length_append, hbase]
  split_ifs <;> simp <;> omega

/-! ## Statistics -/

/-- The points of each return and the range of GPS times. -/
structure PointStats where
  returns : Fin 15 → ℕ
  gpsMin : F64
  gpsMax : F64

namespace PointStats

/-- No points yet. -/
def start : PointStats := ⟨fun _ => 0, F64.maxValue, F64.minValue⟩

/-- The lesser of two times, the one so far when neither is less. -/
def lesser : F64 → F64 → F64 := RunningBest.keep F64.lt

/-- The greater of two times, the one so far when neither is greater. -/
def greater : F64 → F64 → F64 := RunningBest.keep fun v best => best.lt v

/-- Count a point; a return number outside `1..=15` is not counted. -/
def add (s : PointStats) (rp : RawPoint) : PointStats where
  returns k := s.returns k + if rp.returnNumber.toNat = k.val + 1 then 1 else 0
  gpsMin := lesser s.gpsMin (timeOf rp)
  gpsMax := greater s.gpsMax (timeOf rp)

/-- Fold the statistics of a node into the running ones. -/
def merge (s t : PointStats) : PointStats where
  returns k := s.returns k + t.returns k
  gpsMin := lesser s.gpsMin t.gpsMin
  gpsMax := greater s.gpsMax t.gpsMax

/-- Without points, or with NaN times only, the range is `[0, 0]`. -/
def finished (s : PointStats) : PointStats :=
  if s.gpsMax.lt s.gpsMin then { s with gpsMin := ⟨0⟩, gpsMax := ⟨0⟩ } else s

/-- The same counts, and the same numbers as range; a zero may have either sign. -/
structure Same (s t : PointStats) : Prop where
  returns : s.returns = t.returns
  gpsMin : s.gpsMin.key = t.gpsMin.key
  gpsMax : s.gpsMax.key = t.gpsMax.key

end PointStats

/-- One pass over some points. -/
def pointStats (pts : List RawPoint) : PointStats := pts.foldl PointStats.add PointStats.start

namespace PointStats

/-- Times that are numbers, the earlier the better. -/
lemma ranks_lt : RunningBest.Ranks F64.lt (fun v => v.isNaN = false) F64.key := by
  intro v best hbest
  cases hv : v.isNaN with
  | true => simp [F64.lt, hv]
  | false => simpa only [F64.lt_iff hv hbest, true_and] using (and_iff_right hv).symm

/-- Times that are numbers, the later the better. -/
lemma ranks_gt : RunningBest.Ranks (fun v best : F64 => best.lt v) (fun v => v.isNaN = false)
    fun v => -v.key := by
  intro v best hbest
  cases hv : v.isNaN with
  | true => simp [F64.lt, hv]
  | false => simpa only [F64.lt_iff hbest hv, neg_lt_neg_iff] using (and_iff_right hv).symm

lemma foldl_add (pts : List RawPoint) (s : PointStats) :
    pts.foldl add s =
      { returns := fun k => s.returns k + pts.countP fun rp => rp.returnNumber.toNat = k.val + 1
        gpsMin := (pts.map timeOf).foldl lesser s.gpsMin
        gpsMax := (pts.map timeOf).foldl greater s.gpsMax } := by
  induction pts generalizing s with
  | nil => simp
  | cons rp pts ih =>
    rw [List.foldl_cons, ih]
    simp only [add, List.map_cons, List.foldl_cons, List.countP_cons, mk.injEq, and_self, and_true]
    funext k
    simp only [decide_eq_true_eq]
    omega

@[simp] lemma start_gpsMin_isNaN : start.gpsMin.isNaN = false := by decide

@[simp] lemma start_gpsMax_isNaN : start.gpsMax.isNaN = false := by decide

/-- Running statistics: both ends are numbers, inside the range that a pass starts from. -/
structure Running (s : PointStats) : Prop where
  gpsMin_number : s.gpsMin.isNaN = false
  gpsMin_le : s.gpsMin.key ≤ start.gpsMin.key
  gpsMax_number : s.gpsMax.isNaN = false
  le_gpsMax : start.gpsMax.key ≤ s.gpsMax.key

lemma running_start : Running start := ⟨by decide, le_rfl, by decide, le_rfl⟩

lemma Running.foldl_add {s : PointStats} (h : s.Running) (pts : List RawPoint) :
    (pts.foldl add s).Running := by
  rw [PointStats.foldl_add]
  obtain ⟨hmin, -, hminle, -⟩ :=
    RunningBest.foldl_keep_spec ranks_lt (pts.map timeOf) h.gpsMin_number
  obtain ⟨hmax, -, hmaxle, -⟩ :=
    RunningBest.foldl_keep_spec ranks_gt (pts.map timeOf) h.gpsMax_number
  exact ⟨hmin, hminle.trans h.gpsMin_le, hmax, h.le_gpsMax.trans (neg_le_neg_iff.mp hmaxle)⟩

/-- Merging the statistics of some points continues the pass over them. -/
lemma merge_pointStats {s : PointStats} (h : s.Running) (pts : List RawPoint) :
    s.merge (pointStats pts) = pts.foldl add s := by
  have hmin := RunningBest.keep_foldl ranks_lt (pts.map timeOf) start_gpsMin_isNaN
    h.gpsMin_number h.gpsMin_le
  have hmax := RunningBest.keep_foldl ranks_gt (pts.map timeOf) start_gpsMax_isNaN
    h.gpsMax_number (neg_le_neg h.le_gpsMax)
  rw [pointStats, foldl_add, foldl_add, merge]
  simp only [mk.injEq]
  refine ⟨?_, hmin, hmax⟩
  funext k
  change s.returns k + (0 + _) = _
  rw [Nat.zero_add]

/-- The statistics of the parts, merged one after the other, are those of the whole. -/
theorem foldl_merge (parts : List (List RawPoint)) {s : PointStats} (h : s.Running) :
    (parts.map pointStats).foldl merge s = parts.flatten.foldl add s := by
  induction parts generalizing s with
  | nil => rfl
  | cons pts parts ih =>
    rw [List.map_cons, List.foldl_cons, merge_pointStats h, ih (h.foldl_add pts),
      List.flatten_cons, List.foldl_append]

/-- The statistics do not depend on the order of the points. -/
theorem pointStats_perm {pts qts : List RawPoint} (h : pts.Perm qts) :
    (pointStats pts).Same (pointStats qts) := by
  have hmem : ∀ v, v ∈ pts.map timeOf ↔ v ∈ qts.map timeOf := fun v => (h.map timeOf).mem_iff
  rw [pointStats, pointStats, foldl_add, foldl_add]
  refine ⟨?_, ?_, ?_⟩
  · funext k
    exact congrArg _ (h.countP_eq _)
  · exact RunningBest.rank_foldl_keep_congr ranks_lt hmem start_gpsMin_isNaN
  · exact neg_inj.mp (RunningBest.rank_foldl_keep_congr ranks_gt hmem start_gpsMax_isNaN)

lemma running_pointStats (pts : List RawPoint) : (pointStats pts).Running :=
  running_start.foldl_add pts

lemma Same.finished {s t : PointStats} (h : s.Same t) (hs : s.Running) (ht : t.Running) :
    s.finished.Same t.finished := by
  have hs' := F64.lt_iff hs.gpsMax_number hs.gpsMin_number
  have ht' := F64.lt_iff ht.gpsMax_number ht.gpsMin_number
  rw [PointStats.finished, PointStats.finished]
  simp only [hs', ht', h.gpsMin, h.gpsMax]
  split_ifs
  · exact ⟨h.returns, rfl, rfl⟩
  · exact h

end PointStats

/-! ## Window after window -/

/-- What is carried from window to window; the compressor is given the chunks in order. -/
structure WriterState where
  stats : PointStats
  temporalEntries : List TemporalIndexEntry
  chunks : List (List UInt8)

/-- Nothing written yet. -/
def WriterState.start : WriterState := ⟨PointStats.start, [], []⟩

/-- The bytes of a node. -/
def NodeResult.bytes (fmt : UInt8) (r : NodeResult) : List UInt8 :=
  r.points.flatMap (encodePoint fmt)

/-- Take over what came out of encoding a node; samples are kept when an index is asked for. -/
def writeResult (fmt : UInt8) (temporalIndex : Option TemporalStride) (st : WriterState)
    (r : VoxelKey × NodeResult) : WriterState where
  stats := st.stats.merge (pointStats r.2.points)
  temporalEntries :=
    if temporalIndex.isSome then st.temporalEntries ++ [⟨r.1, r.2.samples⟩]
    else st.temporalEntries
  chunks := st.chunks ++ [r.2.bytes fmt]

/-- The results of the nodes of a window, in order. -/
def encodeWindow (o : IterOrder) (temporalIndex : Option TemporalStride) (store : Store)
    (window : List (VoxelKey × ℕ)) : List (VoxelKey × NodeResult) :=
  window.mapIdx fun i e =>
    (e.1, encodeNode (o.sub i) ((temporalIndex.map fun s => s.value.toNat).getD 1) (store e.1))

/-- Encode the nodes of a window and hand them to the compressor. -/
def writeWindow (o : IterOrder) (fmt : UInt8) (temporalIndex : Option TemporalStride)
    (store : Store) (st : WriterState) (window : List (VoxelKey × ℕ)) : WriterState :=
  (encodeWindow o temporalIndex store window).foldl (writeResult fmt temporalIndex) st

/-- The loop over the windows. -/
def writeWindows (o : IterOrder) (fmt : UInt8) (temporalIndex : Option TemporalStride)
    (store : Store) (ws : List (List (VoxelKey × ℕ))) : WriterState :=
  ws.zipIdx.foldl (fun st w => writeWindow (o.sub w.2) fmt temporalIndex store st w.1)
    WriterState.start

/-! ## Sorts that may panic -/

/-- Encode the points of a node, as far as they get sorted. -/
def tryEncodeNode (sorts : TimeSort) (stride : ℕ) (pts : List RawPoint) : Option NodeResult :=
  (sorts.sort pts).map fun sorted => ⟨sorted, samplesOf stride sorted⟩

/-- The results of the nodes of a window, in order; a panic in one of them ends the run. -/
def tryEncodeWindow (sorts : ℕ → TimeSort) (temporalIndex : Option TemporalStride) (store : Store)
    (window : List (VoxelKey × ℕ)) : Option (List (VoxelKey × NodeResult)) :=
  window.zipIdx.mapM fun e =>
    (tryEncodeNode (sorts e.2) ((temporalIndex.map fun s => s.value.toNat).getD 1)
      (store e.1.1)).map fun r => (e.1.1, r)

/-- The loop over the windows, where the sort of every node may be another one. -/
def tryWriteWindows (sorts : ℕ → ℕ → TimeSort) (fmt : UInt8)
    (temporalIndex : Option TemporalStride) (store : Store)
    (ws : List (List (VoxelKey × ℕ))) : Option WriterState :=
  ws.zipIdx.foldlM (fun st w =>
    (tryEncodeWindow (sorts w.2) temporalIndex store w.1).map fun rs =>
      rs.foldl (writeResult fmt temporalIndex) st) WriterState.start

/-! ## The places of the chunks -/

/-- Go through the listed nodes; only a node with points moves on in the chunk table. -/
def chunkInfoLoop (chunkTable : List UInt64) :
    List (VoxelKey × ℕ) → UInt64 → ℕ → Option (List HierarchyEntry)
  | [], _, _ => some []
  | e :: es, currentOffset, chunkIndex =>
    if e.2 = 0 then
      (chunkInfoLoop chunkTable es currentOffset chunkIndex).map (⟨e.1, 0, 0, 0⟩ :: ·)
    else
      chunkTable[chunkIndex]?.bind fun byteCount =>
        (chunkInfoLoop chunkTable es (currentOffset + byteCount) (chunkIndex + 1)).map
          (⟨e.1, currentOffset, byteCount.toUInt32.toInt32, (UInt32.ofNat e.2).toInt32⟩ :: ·)

/-- The entries of the hierarchy; none when the chunk table is too short. -/
def chunkInfo (chunkTable : List UInt64) (offsetToPointData : UInt32)
    (nodeKeys : List (VoxelKey × ℕ)) : Option (List HierarchyEntry) :=
  chunkInfoLoop chunkTable (orderedNodes nodeKeys) (offsetToPointData.toUInt64 + 8) 0

/-! ## The chunks that the compressor is given -/

/-- The results of all windows, in order. -/
def encodeWindows (o : IterOrder) (temporalIndex : Option TemporalStride) (store : Store)
    (ws : List (List (VoxelKey × ℕ))) : List (VoxelKey × NodeResult) :=
  (ws.mapIdx fun w window => encodeWindow (o.sub w) temporalIndex store window).flatten

/-- The bytes are those of the sorted points of the node. -/
def IsChunkOf (fmt : UInt8) (store : Store) (e : VoxelKey × ℕ) (chunk : List UInt8) : Prop :=
  ∃ sorted, SortOf (store e.1) sorted ∧ chunk = sorted.flatMap (encodePoint fmt)

section Loop

variable {fmt : UInt8} {temporalIndex : Option TemporalStride} {store : Store}

lemma foldl_writeResult (rs : List (VoxelKey × NodeResult)) (st : WriterState) :
    rs.foldl (writeResult fmt temporalIndex) st =
      { stats := (rs.map fun r => pointStats r.2.points).foldl PointStats.merge st.stats
        temporalEntries := st.temporalEntries ++
          if temporalIndex.isSome then rs.map fun r => ⟨r.1, r.2.samples⟩ else []
        chunks := st.chunks ++ rs.map fun r => r.2.bytes fmt } := by
  induction rs generalizing st with
  | nil => simp
  | cons r rs ih =>
    rw [List.foldl_cons, ih]
    simp only [writeResult, List.map_cons, List.foldl_cons, List.append_assoc,
      List.singleton_append, WriterState.mk.injEq, true_and, and_true]
    split_ifs
    · rw [List.append_assoc, List.singleton_append]
    · rw [List.append_nil]

/-- The loop goes through the results of all windows. -/
lemma writeWindows_eq (o : IterOrder) (ws : List (List (VoxelKey × ℕ))) :
    writeWindows o fmt temporalIndex store ws =
      (encodeWindows o temporalIndex store ws).foldl (writeResult fmt temporalIndex)
        WriterState.start := by
  rw [writeWindows, encodeWindows, List.foldl_flatten, List.mapIdx_eq_zipIdx_map, List.foldl_map]
  rfl

/-- With the windows of the writer, the samples go where the temporal index takes them from. -/
lemma temporalEntries_writeWindows (o : IterOrder) (stride : TemporalStride)
    (nodeKeys : List (VoxelKey × ℕ)) :
    (writeWindows o fmt (some stride) store (windows (dataKeys nodeKeys))).temporalEntries =
      temporalEntries o stride store nodeKeys := by
  rw [writeWindows_eq, foldl_writeResult]
  rfl

/-- With sorts that return, the results of a window are those of its nodes. -/
lemma tryEncodeWindow_returning (o : IterOrder) (window : List (VoxelKey × ℕ)) :
    tryEncodeWindow (fun i => TimeSort.returning (o.sub i)) temporalIndex store window =
      some (encodeWindow o temporalIndex store window) := by
  rw [encodeWindow, List.mapIdx_eq_zipIdx_map]
  exact List.mapM_pure

/-- With sorts that return, the loop gets to its end. -/
theorem tryWriteWindows_returning (o : IterOrder) (ws : List (List (VoxelKey × ℕ))) :
    tryWriteWindows (fun w i => TimeSort.returning ((o.sub w).sub i)) fmt temporalIndex store ws =
      some (writeWindows o fmt temporalIndex store ws) := by
  unfold tryWriteWindows writeWindows writeWindow
  simp only [tryEncodeWindow_returning, Option.map_some]
  exact List.foldlM_pure

/-- The results hold the points of all nodes. -/
lemma flatten_points_perm {es : List (VoxelKey × ℕ)} {rs : List (VoxelKey × NodeResult)}
    (h : List.Forall₂ (fun e r => r.1 = e.1 ∧ SortOf (store e.1) r.2.points)
      es rs) :
    (rs.flatMap fun r => r.2.points).Perm (es.flatMap fun e => store e.1) := by
  induction h with
  | nil => exact List.Perm.refl _
  | cons hr _ ih =>
    rw [List.flatMap_cons, List.flatMap_cons]
    exact hr.2.perm.append ih

end Loop

/-! ## Every node is given its own chunk -/

/-- What the compressor leaves behind: its first eight bytes, then the compressed chunks in order,
and a table of their sizes. -/
structure Compressed (laz : List UInt8 → List UInt8) (chunks : List (List UInt8))
    (offsetToPointData : UInt32) (file : List UInt8) (chunkTable : List UInt64) : Prop where
  table : chunkTable = chunks.map fun c => UInt64.ofNat (laz c).length
  small : ∀ c ∈ chunks, (laz c).length < 2 ^ 31
  layout : ∃ front rest, front.length = offsetToPointData.toNat + 8 ∧
    file = front ++ (chunks.flatMap laz ++ rest)
  fits : file.length < 2 ^ 64

/-- The bytes that an entry names. -/
def HierarchyEntry.link (e : HierarchyEntry) : Link := ⟨e.offset, e.byteSize.toInt.toNat⟩

/-- The nodes with points, each with its entry. -/
def dataPairs (nodes : List (VoxelKey × ℕ)) (entries : List HierarchyEntry) :
    List ((VoxelKey × ℕ) × HierarchyEntry) :=
  (nodes.zip entries).filter fun z => z.1.2 > 0

/-- The entries of some nodes: a node without points has no bytes, the others have the bytes of
their own chunks, and these bytes follow one another from `start` on. -/
structure Placed (laz : List UInt8 → List UInt8) (file : List UInt8) (nodes : List (VoxelKey × ℕ))
    (chunks : List (List UInt8)) (start : ℕ) (entries : List HierarchyEntry) : Prop where
  keys : entries.map HierarchyEntry.key = nodes.map Prod.fst
  empty : ∀ z ∈ nodes.zip entries, z.1.2 = 0 → z.2 = ⟨z.1.1, 0, 0, 0⟩
  counts : ∀ z ∈ nodes.zip entries, z.2.pointCount = (UInt32.ofNat z.1.2).toInt32
  own : List.Forall₂ (fun z chunk => z.2.byteSize.toInt = ((laz chunk).length : ℤ) ∧
    Bytes.slice file z.2.offset.toNat (laz chunk).length = laz chunk)
    (dataPairs nodes entries) chunks
  tiles : Tiles 0 start ((dataPairs nodes entries).map fun z => z.2.link)
    (start + (chunks.flatMap laz).length)

/-- A size that fits is unchanged as a signed number of 32 bits. -/
lemma toInt_toInt32 {n : ℕ} (h : n < 2 ^ 31) : (UInt64.ofNat n).toUInt32.toInt32.toInt = n := by
  have hnat : (UInt64.ofNat n).toUInt32.toInt32.toBitVec.toNat = n := by
    change (UInt64.ofNat n).toUInt32.toNat = n
    rw [UInt64.toNat_toUInt32, UInt64.toNat_ofNat', Nat.mod_eq_of_lt (by omega),
      Nat.mod_eq_of_lt (by omega)]
  change (UInt64.ofNat n).toUInt32.toInt32.toBitVec.toInt = n
  rw [BitVec.toInt_eq_toNat_of_lt (by omega), hnat]

section Places

variable {laz : List UInt8 → List UInt8} {file : List UInt8} {chunkTable : List UInt64}

lemma chunkInfoLoop_placed (hfits : file.length < 2 ^ 64) (nodes : List (VoxelKey × ℕ))
    {chunks : List (List UInt8)} (hsmall : ∀ c ∈ chunks, (laz c).length < 2 ^ 31)
    (hlen : (nodes.filter fun e => e.2 > 0).length = chunks.length)
    (pos : UInt64) (idx : ℕ)
    (htable : chunkTable.drop idx = chunks.map fun c => UInt64.ofNat (laz c).length)
    (before rest : List UInt8) (hbefore : before.length = pos.toNat)
    (hfile : file = before ++ (chunks.flatMap laz ++ rest)) :
    ∃ entries, chunkInfoLoop chunkTable nodes pos idx = some entries ∧
      Placed laz file nodes chunks pos.toNat entries := by
  induction nodes generalizing chunks pos idx before with
  | nil =>
    obtain rfl := List.length_eq_zero_iff.mp hlen.symm
    exact ⟨[], rfl, rfl, fun z hz => absurd hz List.not_mem_nil,
      fun z hz => absurd hz List.not_mem_nil, List.Forall₂.nil, rfl⟩
  | cons e nodes ih =>
    by_cases he : e.2 = 0
    · rw [List.filter_cons_of_neg (by simp [he])] at hlen
      obtain ⟨entries, hloop, hplaced⟩ := ih hsmall hlen pos idx htable before hbefore hfile
      have hpairs : dataPairs (e :: nodes) (⟨e.1, 0, 0, 0⟩ :: entries) =
          dataPairs nodes entries := by
        rw [dataPairs, List.zip_cons_cons, List.filter_cons_of_neg (by simp [he]), dataPairs]
      refine ⟨⟨e.1, 0, 0, 0⟩ :: entries, ?_, ?_, ?_, ?_, ?_, ?_⟩
      · rw [chunkInfoLoop, if_pos he, hloop, Option.map_some]
      · rw [List.map_cons, List.map_cons, hplaced.keys]
      · intro z hz hzero
        rcases List.mem_cons.mp hz with rfl | hz
        · rfl
        · exact hplaced.empty z hz hzero
      · intro z hz
        rcases List.mem_cons.mp hz with rfl | hz
        · rw [he]
          rfl
        · exact hplaced.counts z hz
      · rw [hpairs]
        exact hplaced.own
      · rw [hpairs]
        exact hplaced.tiles
    · rw [List.filter_cons_of_pos (by simpa using Nat.pos_of_ne_zero he), List.length_cons] at hlen
      obtain _ | ⟨c, chunks⟩ := chunks
      · simp at hlen
      have hc := hsmall c List.mem_cons_self
      have hsize : (UInt64.ofNat (laz c).length).toNat = (laz c).length := by
        rw [UInt64.toNat_ofNat', Nat.mod_eq_of_lt (by omega)]
      rw [List.flatMap_cons, List.append_assoc] at hfile
      have hend : pos.toNat + (laz c).length < 2 ^ 64 := by
        have h := congrArg List.length hfile
        simp only [List.length_append] at h
        omega
      have hnext : (pos + UInt64.ofNat (laz c).length).toNat = pos.toNat + (laz c).length := by
        rw [UInt64.toNat_add, hsize, Nat.mod_eq_of_lt hend]
      have hhere : chunkTable[idx]? = some (UInt64.ofNat (laz c).length) := by
        have h := congrArg (fun l : List UInt64 => l[0]?) htable
        simpa [List.getElem?_drop] using h
      have hthere : chunkTable.drop (idx + 1) =
          chunks.map fun c => UInt64.ofNat (laz c).length := by
        rw [← List.tail_drop, htable, List.map_cons, List.tail_cons]
      obtain ⟨entries, hloop, hplaced⟩ := ih
        (fun c' hc' => hsmall c' (List.mem_cons_of_mem _ hc')) (by simpa using hlen)
        (pos + UInt64.ofNat (laz c).length) (idx + 1) hthere (before ++ laz c)
        (by rw [hnext, List.length_append, hbefore]) (by rw [hfile, List.append_assoc])
      rw [hnext] at hplaced
      have hslice : Bytes.slice file pos.toNat (laz c).length = laz c := by
        rw [hfile, ← hbefore, Bytes.slice_skip _ _ le_rfl, Nat.sub_self, Bytes.slice_here _ rfl]
      refine ⟨_, by rw [chunkInfoLoop, if_neg he, hhere, Option.bind_some, hloop, Option.map_some],
        ?_, ?_, ?_, ?_, ?_⟩
      · rw [List.map_cons, List.map_cons, hplaced.keys]
      · intro z hz hzero
        rcases List.mem_cons.mp hz with rfl | hz
        · exact absurd hzero he
        · exact hplaced.empty z hz hzero
      · intro z hz
        rcases List.mem_cons.mp hz with rfl | hz
        · rfl
        · exact hplaced.counts z hz
      · rw [dataPairs, List.zip_cons_cons,
          List.filter_cons_of_pos (by simpa using Nat.pos_of_ne_zero he)]
        exact List.Forall₂.cons ⟨toInt_toInt32 hc, hslice⟩ hplaced.own
      · rw [dataPairs, List.zip_cons_cons,
          List.filter_cons_of_pos (by simpa using Nat.pos_of_ne_zero he), List.map_cons,
          List.flatMap_cons, List.length_append, ← Nat.add_assoc]
        have hlink : (UInt64.ofNat (laz c).length).toUInt32.toInt32.toInt.toNat =
            (laz c).length := by
          rw [toInt_toInt32 hc, Int.toNat_natCast]
        refine ⟨by rw [HierarchyEntry.link, UInt64.sub_zero], ?_⟩
        rw [HierarchyEntry.link, hlink]
        exact hplaced.tiles

end Places

/-- Every node with points is handed to the compressor once, in the order of the list, and the
statistics are those of all written points at once. -/
structure WrittenOnce (fmt : UInt8) (store : Store) (nodeKeys : List (VoxelKey × ℕ))
    (st : WriterState) : Prop where
  chunks : List.Forall₂ (IsChunkOf fmt store) (dataKeys nodeKeys) st.chunks
  stats : ∃ written : List RawPoint, written.Perm (writtenPoints store nodeKeys) ∧
    st.chunks.flatten = written.flatMap (encodePoint fmt) ∧ st.stats = pointStats written
  finished : st.stats.finished.Same (pointStats (writtenPoints store nodeKeys)).finished

section Written

variable {fmt : UInt8} {temporalIndex : Option TemporalStride} {store : Store}
  {nodeKeys : List (VoxelKey × ℕ)}

/-- The results of the nodes, sorted in whatever way, taken over one after the other. -/
lemma writtenOnce_of_results {rs : List (VoxelKey × NodeResult)}
    (hresults : List.Forall₂ (fun e r => r.1 = e.1 ∧ SortOf (store e.1) r.2.points)
      (dataKeys nodeKeys) rs) :
    WrittenOnce fmt store nodeKeys
      (rs.foldl (writeResult fmt temporalIndex) WriterState.start) := by
  have hperm := flatten_points_perm hresults
  have hstats : (rs.foldl (writeResult fmt temporalIndex) WriterState.start).stats =
      pointStats (rs.flatMap fun r => r.2.points) := by
    have hmerge := PointStats.foldl_merge (rs.map fun r => r.2.points) PointStats.running_start
    rw [List.map_map, ← List.flatMap_def] at hmerge
    rw [foldl_writeResult]
    exact hmerge
  have hchunks : (rs.foldl (writeResult fmt temporalIndex) WriterState.start).chunks =
      rs.map fun r => r.2.bytes fmt := by
    rw [foldl_writeResult]
    rfl
  refine ⟨?_, ⟨_, hperm, ?_, hstats⟩, ?_⟩
  · rw [hchunks, List.forall₂_map_right_iff]
    exact hresults.imp fun e r hr => ⟨r.2.points, hr.2, rfl⟩
  · rw [hchunks, ← List.flatMap_def, List.flatMap_assoc]
    rfl
  · rw [hstats]
    exact (PointStats.pointStats_perm hperm).finished (PointStats.running_pointStats _)
      (PointStats.running_pointStats _)

/-- The results of a window are those of its nodes, each sorted by its own sort. -/
lemma tryEncodeWindow_forall₂ {sorts : ℕ → TimeSort} {window : List (VoxelKey × ℕ)}
    {rs : List (VoxelKey × NodeResult)}
    (h : tryEncodeWindow sorts temporalIndex store window = some rs) :
    List.Forall₂ (fun e r => r.1 = e.1 ∧ ∃ i, (sorts i).sort (store e.1) = some r.2.points)
      window rs := by
  rw [← List.zipIdx_map_fst 0 window, List.forall₂_map_left_iff]
  refine (Lists.forall₂_of_mapM h).imp fun e r hr => ?_
  obtain ⟨result, hresult, rfl⟩ := Option.map_eq_some_iff.mp hr
  obtain ⟨sorted, hsorted, rfl⟩ := Option.map_eq_some_iff.mp hresult
  exact ⟨rfl, e.2, hsorted⟩

/-- A loop that gets to its end has gone through the results of all nodes. -/
lemma exists_results {sorts : ℕ → ℕ → TimeSort} {ws : List (List (VoxelKey × ℕ))}
    {st : WriterState} (h : tryWriteWindows sorts fmt temporalIndex store ws = some st) :
    ∃ rs, st = rs.foldl (writeResult fmt temporalIndex) WriterState.start ∧
      List.Forall₂ (fun e r => r.1 = e.1 ∧ ∃ w i, (sorts w i).sort (store e.1) = some r.2.points)
        ws.flatten rs := by
  have hfold : ∀ (l : List (List (VoxelKey × ℕ) × ℕ)) (st₀ : WriterState),
      (l.foldlM (fun st w => (tryEncodeWindow (sorts w.2) temporalIndex store w.1).map fun rs =>
        rs.foldl (writeResult fmt temporalIndex) st) st₀) = some st →
      ∃ rs, st = rs.foldl (writeResult fmt temporalIndex) st₀ ∧
        List.Forall₂ (fun e r => r.1 = e.1 ∧
          ∃ w i, (sorts w i).sort (store e.1) = some r.2.points) (l.flatMap Prod.fst) rs := by
    intro l
    induction l with
    | nil =>
      intro st₀ hst
      exact ⟨[], (Option.some.inj hst).symm, List.Forall₂.nil⟩
    | cons w l ih =>
      intro st₀ hst
      obtain ⟨st₁, hwindow, hrest⟩ := Option.bind_eq_some_iff.mp hst
      obtain ⟨rs₁, hrs₁, rfl⟩ := Option.map_eq_some_iff.mp hwindow
      obtain ⟨rs, hst', hrs⟩ := ih _ hrest
      refine ⟨rs₁ ++ rs, by rw [hst', List.foldl_append], ?_⟩
      rw [List.flatMap_cons]
      refine List.rel_append ((tryEncodeWindow_forall₂ hrs₁).imp fun e r hr => ?_) hrs
      exact ⟨hr.1, w.2, hr.2⟩
  obtain ⟨rs, hst, hrs⟩ := hfold ws.zipIdx WriterState.start h
  refine ⟨rs, hst, ?_⟩
  rwa [← List.zipIdx_map_fst 0 ws, ← List.flatMap_def]

/-- A loop that gets to its end has written every node. -/
lemma writtenOnce_of_run {sorts : ℕ → ℕ → TimeSort} {ws : List (List (VoxelKey × ℕ))}
    (hws : ws.flatten = dataKeys nodeKeys) {st : WriterState}
    (h : tryWriteWindows sorts fmt temporalIndex store ws = some st) :
    WrittenOnce fmt store nodeKeys st := by
  obtain ⟨rs, rfl, hrs⟩ := exists_results h
  refine writtenOnce_of_results ((hws ▸ hrs).imp fun e r hr => ?_)
  obtain ⟨hkey, w, i, hsorted⟩ := hr
  exact ⟨hkey, (sorts w i).sortOf _ _ hsorted⟩

lemma writeWindows_writtenOnce (o : IterOrder) {ws : List (List (VoxelKey × ℕ))}
    (hws : ws.flatten = dataKeys nodeKeys) :
    WrittenOnce fmt store nodeKeys (writeWindows o fmt temporalIndex store ws) :=
  writtenOnce_of_run hws (tryWriteWindows_returning o ws)

/-- The entries that are read off the chunk table name the chunks of the nodes. -/
lemma WrittenOnce.placed {st : WriterState} (h : WrittenOnce fmt store nodeKeys st)
    {laz : List UInt8 → List UInt8} {offsetToPointData : UInt32} {file : List UInt8}
    {chunkTable : List UInt64}
    (hcomp : Compressed laz st.chunks offsetToPointData file chunkTable) :
    ∃ entries, chunkInfo chunkTable offsetToPointData nodeKeys = some entries ∧
      Placed laz file (orderedNodes nodeKeys) st.chunks (offsetToPointData.toNat + 8) entries := by
  obtain ⟨front, rest, hfront, hfile⟩ := hcomp.layout
  have hoff := offsetToPointData.toNat_lt
  have hstart : (offsetToPointData.toUInt64 + 8).toNat = offsetToPointData.toNat + 8 := by
    have height : (8 : UInt64).toNat = 8 := rfl
    rw [UInt64.toNat_add, UInt32.toNat_toUInt64, height]
    exact Nat.mod_eq_of_lt (by omega)
  obtain ⟨entries, hentries, hplaced⟩ := chunkInfoLoop_placed hcomp.fits (orderedNodes nodeKeys)
    hcomp.small h.chunks.length_eq (offsetToPointData.toUInt64 + 8) 0 hcomp.table front rest
    (hfront.trans hstart.symm) hfile
  rw [hstart] at hplaced
  exact ⟨entries, hentries, hplaced⟩

end Written

/-! ## A node that cannot be sorted -/

end CopcConverter
