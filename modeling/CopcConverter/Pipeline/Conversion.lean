import CopcConverter.Chunking.ChunkFiles
import CopcConverter.Chunking.CountPoints
import CopcConverter.Octree.BuildProgress
import CopcConverter.Octree.Int32Agreement
import CopcConverter.Writer.RoundTrip

/-!
# The whole conversion

The stages of the pipeline one after the other: the counting pass makes the plan, the distribution
fills the chunk files, the build makes the nodes, and the writer makes the file.  Counting and
distribution are crews of workers, interleaved in any way, the build runs its tasks in parallel over
voxel keys with 32-bit coordinates, and maps are iterated in any order.  What a run hands from stage
to stage is a `Build`.

A reader of the finished file gets every point of the input, once, encoded for the output, and finds
it by the key of a voxel that contains it.  What this rests on is gathered in three structures:
`Supported` for the libraries, the settings and the input (no cell with `2 ^ 32` points, no time
that is not a number), `Build.InRange` for the numbers of chunks and the coordinates of voxels, and
`Build.Fits` for the sizes of what is written.
-/

namespace CopcConverter

open Bytes LevelTree Reader Workers

variable {F : Type} [FloatArith F]

/-! ## Input points -/

/-- The saturating cast `as i16` of an integer. -/
def saturate16 (n : ℤ) : Int16 := Int16.ofInt (max (-2 ^ 15) (min (2 ^ 15 - 1) n))

/-- A point as the reader of an input file gives it: its world coordinates, the columns of its
format, some of which are optional, and its record, which ends with the extra bytes. -/
structure SourcePoint (F : Type) (numExtraBytes : UInt16) where
  pos : Axis → F
  intensity : UInt16
  returnNumber : UInt8
  numberOfReturns : UInt8
  classification : UInt8
  /-- In degrees. -/
  scanAngle : F
  userData : UInt8
  pointSourceId : UInt16
  /-- The bits of the `f64`. -/
  gpsTime : Option UInt64
  rgb : Option (UInt16 × UInt16 × UInt16)
  nir : Option UInt16
  record : List UInt8
  width : numExtraBytes.toNat ≤ record.length

/-- The point that is distributed: coordinates in output units, the scan angle in extended units,
zeros for absent columns, and the last bytes of the record. -/
def OctreeBuilder.toRawPoint (b : OctreeBuilder F) (q : SourcePoint F b.numExtraBytes) : RawPoint :=
  let (red, green, blue) := q.rgb.getD (0, 0, 0)
  { x := b.units .x (q.pos .x)
    y := b.units .y (q.pos .y)
    z := b.units .z (q.pos .z)
    intensity := q.intensity
    returnNumber := q.returnNumber
    numberOfReturns := q.numberOfReturns
    classification := q.classification
    scanAngle := saturate16 (FloatArith.toI64 (FloatArith.round
      (q.scanAngle / FloatArith.lit (6 / 1000))))
    userData := q.userData
    pointSourceId := q.pointSourceId
    gpsTime := q.gpsTime.getD 0
    red, green, blue
    nir := q.nir.getD 0
    extras :=
      if b.numExtraBytes = 0 then [] else q.record.drop (q.record.length - b.numExtraBytes.toNat) }

/-- The counting pass and the distribution see the same voxel. -/
lemma keyOf_toRawPoint (b : OctreeBuilder F) (q : SourcePoint F b.numExtraBytes) (level : ℕ) :
    b.keyOf (b.toRawPoint q) level = b.keyOf (b.roundTrip q.pos) level := rfl

/-- Every distributed point has the extra bytes of the output. -/
lemma length_extras_toRawPoint (b : OctreeBuilder F) (q : SourcePoint F b.numExtraBytes) :
    (b.toRawPoint q).extras.length = b.numExtraBytes.toNat := by
  rw [OctreeBuilder.toRawPoint]
  by_cases h : b.numExtraBytes = 0
  · simp [h]
  · simp only [if_neg h, List.length_drop]
    have := q.width
    omega

/-! ## The chunk files hold the points -/

/-- Points that are filed under indices below a bound are all found under these indices. -/
lemma sum_filter_index {α : Type} {f : α → Option UInt32} {n : ℕ} (hn : n ≤ 2 ^ 32) {l : List α}
    (h : ∀ a ∈ l, ∃ i : UInt32, f a = some i ∧ i.toNat < n) :
    ((List.range n).map fun i =>
      (↑(l.filter fun a => f a = some (UInt32.ofNat i)) : Multiset α)).sum = ↑l := by
  induction l with
  | nil => simp
  | cons a l ih =>
    obtain ⟨i, hi, hlt⟩ := h a List.mem_cons_self
    have hsplit : ∀ j ∈ List.range n,
        (↑((a :: l).filter fun a => f a = some (UInt32.ofNat j)) : Multiset α) =
          (if j = i.toNat then {a} else 0) +
            ↑(l.filter fun a => f a = some (UInt32.ofNat j)) := by
      intro j hj
      have hiff : f a = some (UInt32.ofNat j) ↔ j = i.toNat := by
        rw [hi, Option.some.injEq, ← UInt32.toNat_inj,
          UInt32.toNat_ofNat_of_lt' (show _ < 2 ^ 32 from (List.mem_range.mp hj).trans_le hn)]
        exact eq_comm
      rw [List.filter_cons]
      simp only [hiff, decide_eq_true_eq]
      split_ifs
      · rw [Multiset.singleton_add, Multiset.cons_coe]
      · rw [zero_add]
    have hone : ((List.range n).map fun j => if j = i.toNat then ({a} : Multiset α) else 0).sum =
        {a} := by
      rw [← List.sum_toFinset _ List.nodup_range, List.toFinset_range, Finset.sum_ite_eq',
        if_pos (Finset.mem_range.mpr hlt)]
    rw [List.map_congr_left hsplit, List.sum_map_add, hone,
      ih fun b hb => h b (List.mem_cons_of_mem a hb), Multiset.singleton_add, Multiset.cons_coe]

/-- What a chunk file holds, read with any reader. -/
def ReadsAs (lz4 : FrameCodec) (codec : TempCompression) (numExtraBytes : UInt16)
    (bytes : List UInt8) (points : List RawPoint) : Prop :=
  ∃ need, ∀ fuel, need < fuel → ∀ {σ : Type} (read : ReadFn σ) (s : σ),
    Delivers read s bytes → readTempBatches lz4 codec numExtraBytes read s fuel = some points

/-- A file is read in one way. -/
lemma ReadsAs.unique {lz4 : FrameCodec} {codec : TempCompression} {numExtraBytes : UInt16}
    {bytes : List UInt8} {points points' : List RawPoint}
    (h : ReadsAs lz4 codec numExtraBytes bytes points)
    (h' : ReadsAs lz4 codec numExtraBytes bytes points') : points = points' := by
  obtain ⟨need, hread⟩ := h
  obtain ⟨need', hread'⟩ := h'
  have hat : Delivers FileHandle.readSome ⟨bytes, 0, fun _ => 0⟩ bytes :=
    FileHandle.delivers_of_at ⟨[], rfl, rfl⟩
  have hone := hread (need + need' + 1) (by omega) _ _ hat
  have hother := hread' (need + need' + 1) (by omega) _ _ hat
  exact Option.some.inj (hone.symm.trans hother)

section Distribution

variable {b : OctreeBuilder F} {plan : ChunkPlan} {lz4 : FrameCodec} {pieces : BufWriter.Pieces}
  {codec : TempCompression}

/-- However the workers were interleaved, the file of a chunk is read as the points that are routed
to the chunk. -/
lemma chunkFile_readsAs (hlz4 : lz4.Lawful) {size numWorkers cap : ℕ} (hsize : size < 2 ^ 32)
    (hplan : plan.chunks.length < 2 ^ 32) {o : IterOrder} (o' : IterOrder)
    (hworkers : 0 < numWorkers) {files : List (StreamedFile size b.numExtraBytes)}
    {start crew : Crew WorkerStep (List UInt64) ShardState} {schedule : List ℕ}
    (hstart : b.distributeStart o plan cap codec numWorkers files = some start)
    (hrun : start.run WorkerStep.onCounts (WorkerStep.onShard lz4 pieces o) schedule = some crew)
    (hdone : crew.Finished) {i : ℕ} (hi : i < plan.chunks.length) :
    ∃ bytes, chunkFilesOf o' plan crew (UInt32.ofNat i) = some bytes ∧
      ReadsAs lz4 codec b.numExtraBytes bytes
        ((files.flatMap StreamedFile.points).filter fun p =>
          b.chunkIndexOf plan (buildChunkLut plan) p = some (UInt32.ofNat i)) := by
  obtain ⟨hshards, -⟩ := crew_finished hsize hstart hrun hdone
  have hparts : List.Forall₂ (ShardHolds b plan (buildChunkLut plan) lz4 codec)
      ((List.range numWorkers).map fun w =>
        (workerFiles files numWorkers w).flatMap StreamedFile.points)
      (crew.workers.map fun w => w.own.files) :=
    List.forall₂_map_left_iff.mpr (List.forall₂_map_right_iff.mpr hshards)
  obtain ⟨batches, hgood, hflat, hbytes⟩ := merged_shards hparts (UInt32.ofNat i)
  rw [← List.flatMap_def, ← List.flatMap_assoc, flatMap_workerFiles files hworkers] at hflat
  have hlt : UInt32.ofNat i < UInt32.ofNat plan.chunks.length := by
    rw [UInt32.lt_iff_toNat_lt, UInt32.toNat_ofNat', UInt32.toNat_ofNat',
      Nat.mod_eq_of_lt (hi.trans hplan), Nat.mod_eq_of_lt hplan]
    exact hi
  refine ⟨fileBytes lz4 codec batches, ?_, batches.length, fun fuel hfuel σ read s hdel => ?_⟩
  · rw [chunkFilesOf, mergeChunkShards_apply, if_pos hlt, hbytes]
  · rw [readTempBatches_spec hlz4 (fun batch hbatch => (hgood batch hbatch).1)
      (fun batch hbatch => (hgood batch hbatch).2) hdel hfuel, hflat]

end Distribution

/-! ## The stages -/

/-- What a conversion is given: the builder made from the headers, the points of the input files,
the configuration, and the libraries. -/
structure Conversion (F : Type) [FloatArith F] where
  builder : OctreeBuilder F
  /-- The number of points that the headers add up to. -/
  totalPoints : ℕ
  files : List (List (SourcePoint F builder.numExtraBytes))
  memoryBudget : ℕ
  cores : ℕ
  perWorkerCap : ℕ
  chunkTargetOverride : Option ℕ
  tempCompression : TempCompression
  lz4 : FrameCodec
  pieces : BufWriter.Pieces
  laz : LazCodec
  settings : WriteSettings

namespace Conversion

variable (c : Conversion F)

/-- The number of workers of both passes over the input. -/
def numWorkers : ℕ := chunkedDistributeWorkerCount c.cores c.files.length

/-- The resolution of the counting grid. -/
def gridSize : ℕ := selectGridSize c.totalPoints c.memoryBudget

/-- The octree level of the cells of the counting grid. -/
def gridDepth : ℕ := trailingZeros c.gridSize

/-- The number of points that a chunk should have. -/
def chunkTarget : ℕ :=
  c.chunkTargetOverride.getD (computeChunkTarget F c.memoryBudget c.numWorkers c.totalPoints)

/-- The plan that is made of the counters. -/
def plan (grid : ℕ → UInt32) : ChunkPlan where
  gridSize := c.gridSize
  gridDepth := c.gridDepth
  chunks := mergeSparseCells grid c.gridSize c.gridDepth c.chunkTarget

/-- The coordinates of the points of every file. -/
def positions : List (List (Axis → F)) := c.files.map fun file => file.map SourcePoint.pos

/-- The points of all files, as they are distributed. -/
def points : List RawPoint := c.files.flatten.map c.builder.toRawPoint

/-- Some interleaving of the counting workers leaves these counters. -/
def Counts (grid : ℕ → UInt32) : Prop :=
  ∃ (infinity negInfinity : F) (schedule : List ℕ)
    (crew : Crew (Axis → F) (ℕ → UInt32) (ActualBounds F)),
    (countStart infinity negInfinity (splitFiles c.positions c.numWorkers)).run
      (c.builder.onGrid c.gridSize c.gridDepth) c.builder.onBounds schedule = some crew ∧
    crew.Finished ∧ crew.shared = grid

/-- The input files as the distribution reads them, each in some batches. -/
abbrev Streamed : Type :=
  List (StreamedFile (readChunkSize c.memoryBudget c.numWorkers c.builder.numExtraBytes)
    c.builder.numExtraBytes)

/-- Some interleaving of the distributing workers leaves these counts of the chunks, and chunk files
that are read as these points. -/
def Distributes (plan : ChunkPlan) (counts : List UInt64) (chunkFiles : ℕ → List RawPoint) : Prop :=
  ∃ (o o' : IterOrder) (streamed : c.Streamed) (schedule : List ℕ)
    (start crew : Crew WorkerStep (List UInt64) ShardState),
    streamed.map StreamedFile.points = c.files.map (fun file => file.map c.builder.toRawPoint) ∧
    c.builder.distributeStart o plan c.perWorkerCap c.tempCompression c.numWorkers streamed =
      some start ∧
    start.run WorkerStep.onCounts (WorkerStep.onShard c.lz4 c.pieces o) schedule = some crew ∧
    crew.Finished ∧ crew.shared = counts ∧
    ∀ i < plan.chunks.length, ∃ bytes,
      chunkFilesOf o' plan crew (UInt32.ofNat i) = some bytes ∧
        ReadsAs c.lz4 c.tempCompression c.builder.numExtraBytes bytes (chunkFiles i)

/-- A conversion that got to the writer: what every stage handed to the next one. -/
structure Build where
  grid : ℕ → UInt32
  counted : c.Counts grid
  counts : List UInt64
  chunkFiles : ℕ → List RawPoint
  distributed : c.Distributes (c.plan grid) counts chunkFiles
  schedules : Schedules
  order : IterOrder
  store : Store
  nodes : List (VoxelKey × ℕ)
  built : c.builder.interleavedNodeMap32 schedules order c.memoryBudget c.cores
    (some (c.plan grid)) (some (counts.map UInt64.toNat)) chunkFiles = .ok (store, nodes)

/-! ## What is relied on -/

/-- What a conversion relies on: the libraries keep their promises, the settings are those of an
output file, the GPS times are numbers, and no cell of the counting grid has more points than its
counter can count. -/
structure Supported : Prop where
  lz4 : c.lz4.Lawful
  laz : c.laz.Lawful c.settings.recordLength.toNat
  format : IsCopcFormat c.settings.pointFormat
  numExtraBytes : c.settings.numExtraBytes = c.builder.numExtraBytes
  width : 38 + c.settings.numExtraBytes.toNat < 2 ^ 16
  lazVlr : c.laz.vlrPayload.length < 65536
  wkt : ∀ d ∈ c.settings.wktCrs, d.length < 65536
  extraBytes : ∀ d ∈ c.settings.extraBytesVlr, d.length < 65536
  times : ∀ p ∈ c.points, (timeOf p).isNaN = false
  cells : ∀ i, (c.positions.flatten.countP fun pos =>
    c.builder.cellIdx c.gridSize c.gridDepth pos = i) < 2 ^ 32

variable {c}

/-- The chunks can be numbered in the routing table, and the voxels that the points are classified
into have 32-bit coordinates. -/
structure Build.InRange (r : c.Build) : Prop where
  indexes : (c.plan r.grid).chunks.length ≤ subsplitMarker.toNat
  leaves : c.builder.LeavesInRange c.memoryBudget c.cores (c.plan r.grid)
    (some (r.counts.map UInt64.toNat)) r.chunkFiles

/-- What was made on the way fits the fields it is stored in. -/
structure Build.Fits (r : c.Build) : Prop extends r.InRange where
  levels : ∀ e ∈ r.nodes, e.1.level < 2 ^ 31
  points : ∀ e ∈ r.nodes, e.2 < 2 ^ 31
  chunks : ∀ e ∈ r.nodes, ∀ chunk, IsChunkOf c.settings.pointFormat r.store e chunk →
    (c.laz.compress chunk).length < 2 ^ 31

/-! ## Counting -/

/-- The grid is as large as its depth says. -/
lemma gridSize_eq : c.gridSize = 2 ^ c.gridDepth :=
  (selectGridSize_eq c.totalPoints c.memoryBudget).1

lemma gridDepth_le : c.gridDepth ≤ 9 := (selectGridSize_eq c.totalPoints c.memoryBudget).2

/-- There is a worker. -/
lemma numWorkers_pos : 0 < c.numWorkers := by
  unfold numWorkers chunkedDistributeWorkerCount
  omega

/-- The plan is the one of the grid. -/
lemma plan_eq (grid : ℕ → UInt32) : c.plan grid = planOf grid c.gridDepth c.chunkTarget := by
  rw [plan, planOf, gridSize_eq]

/-- However the counting workers were interleaved, the counter of the cell of a point is not
zero. -/
lemma Counts.pos (hc : c.Supported) {grid : ℕ → UInt32} (h : c.Counts grid) {p : RawPoint}
    (hp : p ∈ c.points) :
    0 < grid (CubeGrid.flat (2 ^ c.gridDepth) ((c.builder.keyOf p c.gridDepth).x,
      (c.builder.keyOf p c.gridDepth).y, (c.builder.keyOf p c.gridDepth).z)) := by
  obtain ⟨infinity, negInfinity, schedule, crew, hrun, hdone, rfl⟩ := h
  obtain ⟨q, hq, rfl⟩ := List.mem_map.mp hp
  have hsize : 0 < c.gridSize := by
    rw [gridSize_eq]
    exact Nat.two_pow_pos _
  have hcells := hc.cells
  rw [gridSize_eq] at hrun hcells
  obtain ⟨cell, -, hidx, hkey⟩ := cellIdx_eq c.builder c.gridDepth q.pos
  have hcell : ((c.builder.keyOf (c.builder.toRawPoint q) c.gridDepth).x,
      (c.builder.keyOf (c.builder.toRawPoint q) c.gridDepth).y,
      (c.builder.keyOf (c.builder.toRawPoint q) c.gridDepth).z) = cell := by
    rw [keyOf_toRawPoint, hkey]
    rfl
  have hpos : q.pos ∈ c.positions.flatten := by
    rw [positions, ← List.map_flatten]
    exact List.mem_map_of_mem hq
  rw [hcell, ← hidx, crew_counts (gridSize_eq (c := c) ▸ hsize) hrun hdone,
    flatten_splitFiles _ numWorkers_pos, UInt32.lt_iff_toNat_lt,
    UInt32.toNat_ofNat_of_lt' (hcells _)]
  exact List.countP_pos_iff.mpr ⟨q.pos, hpos, decide_eq_true rfl⟩

/-- Every point is routed to a planned chunk whose voxel contains it. -/
lemma Counts.routed (hc : c.Supported) {grid : ℕ → UInt32} (h : c.Counts grid)
    (hplan : (c.plan grid).chunks.length ≤ subsplitMarker.toNat) {p : RawPoint}
    (hp : p ∈ c.points) :
    ∃ (i : UInt32) (chunk : PlannedChunk),
      c.builder.chunkIndexOf (c.plan grid) (buildChunkLut (c.plan grid)) p = some i ∧
      (c.plan grid).chunks[i.toNat]? = some chunk ∧ c.builder.keyOf p chunk.level = chunk.key := by
  rw [plan_eq] at hplan ⊢
  obtain ⟨i, chunk, hchunk, hkey, -, hroute⟩ :=
    OctreeBuilder.exists_chunkIndexOf c.chunkTarget c.builder p (h.pos hc hp)
  have hlt := (List.getElem?_eq_some_iff.mp hchunk).1
  have hnat : (UInt32.ofNat i).toNat = i :=
    UInt32.toNat_ofNat_of_lt' ((hlt.trans_le hplan).trans subsplitMarker.toNat_lt)
  refine ⟨UInt32.ofNat i, chunk, hroute (Or.inr fun hmarker => ?_), by rwa [hnat], hkey⟩
  rw [← hmarker, hnat] at hplan
  exact absurd hlt (Nat.not_lt.mpr hplan)

/-! ## Distributing -/

/-- However the distributing workers were interleaved, the file of a chunk holds the points that are
routed to the chunk, and its counter is their number. -/
lemma Distributes.chunk (hc : c.Supported) {plan : ChunkPlan}
    (hplan : plan.chunks.length ≤ subsplitMarker.toNat) {counts : List UInt64}
    {chunkFiles : ℕ → List RawPoint} (h : c.Distributes plan counts chunkFiles) {i : ℕ}
    (hi : i < plan.chunks.length) :
    (chunkFiles i = c.points.filter fun p =>
      c.builder.chunkIndexOf plan (buildChunkLut plan) p = some (UInt32.ofNat i)) ∧
    counts[i]? = some (UInt64.ofNat (chunkFiles i).length) := by
  obtain ⟨o, o', streamed, schedule, start, crew, hstreamed, hstart, hrun, hdone, rfl, hfiles⟩ := h
  have hpoints : streamed.flatMap StreamedFile.points = c.points := by
    rw [List.flatMap_def, hstreamed, points, List.map_flatten]
  have hsize := (readChunkSize_le c.memoryBudget c.numWorkers c.builder.numExtraBytes).trans_lt
    (show 2000000 < 2 ^ 32 by norm_num)
  have hlt : plan.chunks.length < 2 ^ 32 := hplan.trans_lt subsplitMarker.toNat_lt
  obtain ⟨bytes, hbytes, hreads⟩ := hfiles i hi
  obtain ⟨bytes', hbytes', hreads'⟩ :=
    chunkFile_readsAs hc.lz4 hsize hlt o' numWorkers_pos hstart hrun hdone hi
  obtain rfl := Option.some.inj (hbytes.symm.trans hbytes')
  have hfile := hreads.unique hreads'
  rw [hpoints] at hfile
  have hnat : (UInt32.ofNat i).toNat = i := UInt32.toNat_ofNat_of_lt' (hi.trans hlt)
  have hcount := (crew_finished hsize hstart hrun hdone).2 (UInt32.ofNat i) (by rwa [hnat])
  rw [hnat, flatMap_workerFiles streamed numWorkers_pos, hpoints] at hcount
  exact ⟨hfile, by rw [hcount, hfile]⟩

/-- Every point is in the file of a chunk whose voxel contains it. -/
lemma Distributes.distributed (hc : c.Supported) {grid : ℕ → UInt32} (hcount : c.Counts grid)
    (hplan : (c.plan grid).chunks.length ≤ subsplitMarker.toNat) {counts : List UInt64}
    {chunkFiles : ℕ → List RawPoint} (h : c.Distributes (c.plan grid) counts chunkFiles) :
    Distributed c.builder (c.plan grid).chunks chunkFiles ↑c.points := by
  have hlt : (c.plan grid).chunks.length < 2 ^ 32 := hplan.trans_lt subsplitMarker.toNat_lt
  constructor
  · intro i chunk hchunk p hp
    have hi := (List.getElem?_eq_some_iff.mp hchunk).1
    rw [(h.chunk hc hplan hi).1] at hp
    obtain ⟨hmem, hindex⟩ := List.mem_filter.mp hp
    obtain ⟨j, chunk', hroute, hget, hkey⟩ := hcount.routed hc hplan hmem
    obtain rfl := Option.some.inj (hroute.symm.trans (of_decide_eq_true hindex))
    rw [UInt32.toNat_ofNat_of_lt' (hi.trans hlt), hchunk] at hget
    rwa [← Option.some.inj hget] at hkey
  · have hread : ∀ i ∈ List.range (c.plan grid).chunks.length,
        (↑(chunkFiles i) : Multiset RawPoint) = ↑(c.points.filter fun p =>
          c.builder.chunkIndexOf (c.plan grid) (buildChunkLut (c.plan grid)) p =
            some (UInt32.ofNat i)) := by
      intro i hi
      rw [(h.chunk hc hplan (List.mem_range.mp hi)).1]
    rw [List.map_congr_left hread]
    refine sum_filter_index hlt.le fun p hp => ?_
    obtain ⟨i, chunk, hroute, hget, -⟩ := hcount.routed hc hplan hp
    exact ⟨i, hroute, (List.getElem?_eq_some_iff.mp hget).1⟩

/-! ## Progress -/

/-- The counting workers can be interleaved, and get to their end. -/
lemma exists_counts (c : Conversion F) (infinity negInfinity : F) : ∃ grid, c.Counts grid := by
  have hsize : 0 < c.gridSize := by
    rw [gridSize_eq]
    exact Nat.two_pow_pos _
  obtain ⟨schedule, crew, hrun, hdone⟩ := (@ready_countStart F _ c.builder c.gridSize c.gridDepth
    infinity negInfinity (splitFiles c.positions c.numWorkers) hsize).exists_finish
  exact ⟨crew.shared, infinity, negInfinity, schedule, crew, hrun, hdone, rfl⟩

/-- A file that is read point by point. -/
def streamOf (file : List (SourcePoint F c.builder.numExtraBytes)) :
    StreamedFile (readChunkSize c.memoryBudget c.numWorkers c.builder.numExtraBytes)
      c.builder.numExtraBytes where
  batches := file.map fun q => [c.builder.toRawPoint q]
  nonempty batch hbatch := by
    obtain ⟨q, -, rfl⟩ := List.mem_map.mp hbatch
    exact List.cons_ne_nil _ _
  size batch hbatch := by
    obtain ⟨q, -, rfl⟩ := List.mem_map.mp hbatch
    exact le_trans (show 1 ≤ 50000 by decide) (le_max_left _ _)
  carries batch hbatch := by
    obtain ⟨q, -, rfl⟩ := List.mem_map.mp hbatch
    intro p hp
    rw [List.mem_singleton.mp hp]
    exact length_extras_toRawPoint _ _

/-- The distributing workers can be interleaved, and get to their end. -/
lemma Counts.exists_distributes (hc : c.Supported) {grid : ℕ → UInt32} (h : c.Counts grid)
    (hplan : (c.plan grid).chunks.length ≤ subsplitMarker.toNat) :
    ∃ counts chunkFiles, c.Distributes (c.plan grid) counts chunkFiles := by
  have hpoints : (c.files.map streamOf).map StreamedFile.points =
      c.files.map fun file => file.map c.builder.toRawPoint := by
    rw [List.map_map]
    refine List.map_congr_left fun file _ => ?_
    rw [Function.comp_apply, StreamedFile.points, streamOf, ← List.flatMap_def,
      List.map_eq_flatMap]
  have hrouted : ∀ file ∈ c.files.map streamOf, ∀ p ∈ file.points, ∃ i : UInt32,
      c.builder.chunkIndexOf (c.plan grid) (buildChunkLut (c.plan grid)) p = some i ∧
        i.toNat < (c.plan grid).chunks.length := by
    intro file hfile p hp
    have hmem : p ∈ c.points := by
      rw [points, List.map_flatten, ← hpoints]
      exact List.mem_flatten.mpr ⟨_, List.mem_map_of_mem hfile, hp⟩
    obtain ⟨i, chunk, hroute, hget, -⟩ := h.routed hc hplan hmem
    exact ⟨i, hroute, (List.getElem?_eq_some_iff.mp hget).1⟩
  obtain ⟨start, hstart, hready⟩ : ∃ start,
      c.builder.distributeStart .listed (c.plan grid) c.perWorkerCap c.tempCompression c.numWorkers
        (c.files.map streamOf) = some start ∧
      Ready WorkerStep.onCounts (WorkerStep.onShard c.lz4 c.pieces .listed)
        (fun counts => counts.length = (c.plan grid).chunks.length) start :=
    ready_start c.numWorkers .listed hrouted
  obtain ⟨schedule, crew, hrun, hdone⟩ := hready.exists_finish
  have hsize := (readChunkSize_le c.memoryBudget c.numWorkers c.builder.numExtraBytes).trans_lt
    (show 2000000 < 2 ^ 32 by norm_num)
  have hfile : ∀ i < (c.plan grid).chunks.length, ∃ bytes,
      chunkFilesOf .listed (c.plan grid) crew (UInt32.ofNat i) = some bytes ∧
        ReadsAs c.lz4 c.tempCompression c.builder.numExtraBytes bytes
          (((c.files.map streamOf).flatMap StreamedFile.points).filter fun p =>
            c.builder.chunkIndexOf (c.plan grid) (buildChunkLut (c.plan grid)) p =
              some (UInt32.ofNat i)) :=
    fun i hi => chunkFile_readsAs hc.lz4 hsize (hplan.trans_lt subsplitMarker.toNat_lt) .listed
      numWorkers_pos hstart hrun hdone hi
  exact ⟨crew.shared, _, .listed, .listed, c.files.map streamOf, schedule, start, crew, hpoints,
    hstart, hrun, hdone, rfl, hfile⟩

/-- An input within the limit of a merge whose chunks are not deep gets to the writer. -/
lemma exists_build (hc : c.Supported) (infinity negInfinity : F)
    (hplan : ∀ grid, c.Counts grid → (c.plan grid).chunks.length ≤ subsplitMarker.toNat)
    (hshallow : ∀ grid, c.Counts grid → ∀ chunk ∈ (c.plan grid).chunks, chunk.level ≤ 6)
    (hlimit : c.points.length * c.builder.memPerPoint ≤ mergeLimit c.memoryBudget) :
    Nonempty c.Build := by
  obtain ⟨grid, hcount⟩ := c.exists_counts infinity negInfinity
  obtain ⟨counts, chunkFiles, hfiles⟩ := hcount.exists_distributes hc (hplan grid hcount)
  have hd := hfiles.distributed hc hcount (hplan grid hcount)
  have hleaves : c.builder.LeavesInRange c.memoryBudget c.cores (c.plan grid)
      (some (counts.map UInt64.toNat)) chunkFiles :=
    OctreeBuilder.leavesInRange_of_shallow (hshallow grid hcount)
  rw [plan_eq] at hd hleaves
  obtain ⟨store, nodes, hbuilt, -⟩ := OctreeBuilder.exists_buildNodeMap hd hlimit .listed c.cores
    (some (counts.map UInt64.toNat))
  have hrun := (OctreeBuilder.interleavedNodeMap32_iff gridDepth_le hd.routed hleaves .sequential
    .listed (store, nodes)).mpr hbuilt
  rw [← plan_eq] at hrun
  exact ⟨⟨grid, hcount, counts, chunkFiles, hfiles, .sequential, .listed, store, nodes, hrun⟩⟩

/-! ## What a reader gets -/

/-- A reader of the file gets every point of the input, once, encoded for the output; it finds every
point by the key of a voxel that contains it; and the numbers of the header are those of the
points. -/
structure Lossless (c : Conversion F) (file : List UInt8) (header : CopcHeader) : Prop where
  head : readCopcHeader file = some header
  pointFormat : header.pointFormat = c.settings.pointFormat
  totalPoints : header.totalPoints = UInt64.ofNat c.points.length
  returnCounts : ∀ k : Fin 15, header.returnCounts[k.val]? = some (UInt64.ofNat
    (c.points.countP fun p => p.returnNumber.toNat = k.val + 1))
  times :
    header.info.gpstimeMinimum.key = (pointStats c.points).finished.gpsMin.key ∧
    header.info.gpstimeMaximum.key = (pointStats c.points).finished.gpsMax.key
  all : ∃ pts need, (∀ fuel, need ≤ fuel → header.allPoints c.laz file fuel = some pts) ∧
    pts.Perm (c.points.map (RawPoint.asWritten c.settings.pointFormat))
  found : ∀ p ∈ c.points, ∃ level entry pts need,
    (∀ fuel, need ≤ fuel →
      header.lookup file (c.builder.keyOf p level) fuel = some entry) ∧
    header.pointsOf c.laz file entry = some pts ∧
      p.asWritten c.settings.pointFormat ∈ pts

namespace Build

variable (r : c.Build)

/-- What the stages before the build leave. -/
lemma filesHold (hc : c.Supported)
    (hplan : (c.plan r.grid).chunks.length ≤ subsplitMarker.toNat) :
    Distributed c.builder (planOf r.grid c.gridDepth c.chunkTarget).chunks r.chunkFiles
      ↑c.points := by
  have h := r.distributed.distributed hc r.counted hplan
  rwa [plan_eq] at h

variable {r}

lemma InRange.leaves_eq (hr : r.InRange) : c.builder.LeavesInRange c.memoryBudget c.cores
    (planOf r.grid c.gridDepth c.chunkTarget) (some (r.counts.map UInt64.toNat)) r.chunkFiles := by
  rw [← plan_eq]
  exact hr.leaves

/-- In range, the build is the one that takes everything one after the other. -/
lemma built_eq (hc : c.Supported) (hr : r.InRange) :
    c.builder.buildNodeMap r.order c.memoryBudget c.cores
      (some (planOf r.grid c.gridDepth c.chunkTarget)) (some (r.counts.map UInt64.toNat))
      r.chunkFiles = .ok (r.store, r.nodes) := by
  have hbuilt := r.built
  rw [plan_eq] at hbuilt
  exact (OctreeBuilder.interleavedNodeMap32_iff gridDepth_le (r.filesHold hc hr.indexes).routed
    hr.leaves_eq r.schedules r.order (r.store, r.nodes)).mp hbuilt

/-- In range, the listed keys have 32-bit coordinates. -/
lemma small_node (hc : c.Supported) (hr : r.InRange) {e : VoxelKey × ℕ} (he : e ∈ r.nodes) :
    e.1.Small := by
  obtain ⟨-, -, hlist⟩ :=
    OctreeBuilder.buildNodeMap_conserved (r.filesHold hc hr.indexes) (built_eq hc hr)
  obtain ⟨k, hk, hek⟩ := hlist.supported e.1 (List.mem_map_of_mem he)
  have hbuilt := r.built
  rw [plan_eq] at hbuilt
  have hsmall := OctreeBuilder.small_of_interleavedNodeMap32 gridDepth_le hr.leaves_eq hbuilt hk
  rw [← hek.2]
  exact (hsmall.iterate_up32_eq _).2

/-- A point is stored under a listed key of its own path. -/
lemma exists_node (hc : c.Supported) (hr : r.InRange) {p : RawPoint}
    (hp : p ∈ c.points) :
    ∃ e ∈ r.nodes, p ∈ r.store e.1 ∧ c.builder.keyOf p e.1.level = e.1 := by
  have hd := r.filesHold hc hr.indexes
  obtain ⟨hcons, -, -⟩ := OctreeBuilder.buildNodeMap_conserved hd (built_eq hc hr)
  obtain ⟨e, he, hmem⟩ := (OctreeBuilder.buildNodeMap_mem_iff hd (built_eq hc hr) p).mpr
    (Multiset.mem_coe.mpr hp)
  have hunder := OctreeBuilder.buildNodeMap_under_root hd (built_eq hc hr) (List.ne_nil_of_mem hmem)
  exact ⟨e, he, hmem, hcons.placed e.1 p hunder (Multiset.mem_coe.mpr hmem)⟩

/-- A stored point has the extra bytes of the output. -/
lemma length_extras (hc : c.Supported) (hr : r.InRange) {e : VoxelKey × ℕ}
    (he : e ∈ r.nodes) {p : RawPoint} (hp : p ∈ r.store e.1) :
    p.extras.length = c.settings.numExtraBytes.toNat := by
  have hmem := (OctreeBuilder.buildNodeMap_mem_iff (r.filesHold hc hr.indexes)
    (built_eq hc hr) p).mp ⟨e, he, hp⟩
  obtain ⟨q, -, rfl⟩ := List.mem_map.mp (Multiset.mem_coe.mp hmem)
  rw [hc.numExtraBytes, length_extras_toRawPoint]

/-- The chunk of a node has a record for every point. -/
lemma length_chunk (hc : c.Supported) (hr : r.InRange) {e : VoxelKey × ℕ}
    (he : e ∈ r.nodes) {chunk : List UInt8}
    (hchunk : IsChunkOf c.settings.pointFormat r.store e chunk) :
    chunk.length = e.2 * c.settings.recordLength.toNat := by
  obtain ⟨sorted, ⟨hperm, -⟩, rfl⟩ := hchunk
  obtain ⟨-, -, hlist⟩ :=
    OctreeBuilder.buildNodeMap_conserved (r.filesHold hc hr.indexes) (built_eq hc hr)
  rw [length_flatMap_encodePoint hc.format hc.width fun p hp =>
    length_extras hc hr he (hperm.mem_iff.mp hp), hperm.length_eq, hlist.counts e he]
  rfl

/-- The written points are the points of the input. -/
lemma writtenPoints_perm (hc : c.Supported) (hr : r.InRange) :
    (writtenPoints r.store r.nodes).Perm c.points := by
  have hd := r.filesHold hc hr.indexes
  obtain ⟨-, -, hlist⟩ := OctreeBuilder.buildNodeMap_conserved hd (built_eq hc hr)
  have hsum := OctreeBuilder.buildNodeMap_sum hd (built_eq hc hr)
  have hflat : (r.nodes.map fun e => (↑(r.store e.1) : Multiset RawPoint)).sum =
      ↑(r.nodes.flatMap fun e => r.store e.1) := Multiset.coe_bind r.nodes fun e => r.store e.1
  rw [writtenPoints_eq hlist.counts]
  refine ((orderedNodes_perm r.nodes).flatMap_right _).trans ?_
  exact Multiset.coe_eq_coe.mp (hflat.symm.trans hsum)

/-- What the writer relies on. -/
lemma writable (hc : c.Supported) (hr : r.Fits) :
    Writable c.laz c.settings r.store r.nodes := by
  obtain ⟨-, -, hlist⟩ :=
    OctreeBuilder.buildNodeMap_conserved (r.filesHold hc hr.indexes) (built_eq hc hr.toInRange)
  refine ⟨hc.laz, hc.format, hc.width, hlist.nodup, hlist.counts,
    fun e he p hp => length_extras hc hr.toInRange he hp, fun e he p hp => ?_, fun e he => ?_,
    hr.points, hr.chunks, hc.lazVlr, hc.wkt, hc.extraBytes⟩
  · exact hc.times p (Multiset.mem_coe.mp ((OctreeBuilder.buildNodeMap_mem_iff
      (r.filesHold hc hr.indexes) (built_eq hc hr.toInRange) p).mp ⟨e, he, hp⟩))
  · obtain ⟨-, hx, hy, hz⟩ := small_node hc hr.toInRange he
    exact ⟨hr.levels e he, hx, hy, hz⟩

end Build

/-! ## Small inputs -/

/-- The counters add up to the number of points. -/
lemma Counts.total (hc : c.Supported) {grid : ℕ → UInt32} (h : c.Counts grid) :
    cellTotal grid c.gridDepth VoxelKey.root = c.points.length := by
  obtain ⟨infinity, negInfinity, schedule, crew, hrun, hdone, rfl⟩ := h
  have hcells := hc.cells
  rw [gridSize_eq] at hrun hcells
  have hpos : 0 < 2 ^ c.gridDepth := Nat.two_pow_pos _
  have hcount : ∀ i, (crew.shared i).toNat = c.positions.flatten.countP fun pos =>
      c.builder.cellIdx (2 ^ c.gridDepth) c.gridDepth pos = i := by
    intro i
    rw [crew_counts hpos hrun hdone, flatten_splitFiles _ numWorkers_pos,
      UInt32.toNat_ofNat_of_lt' (hcells i)]
  rw [cellTotal_root, Finset.sum_congr rfl fun i _ => hcount i,
    Lists.sum_countP fun pos _ => cellIdx_lt hpos pos, positions, points, List.length_map,
    ← List.map_flatten, List.length_map]

/-- Points that are not too many for a chunk are one chunk at the root. -/
lemma Counts.plan_small (hc : c.Supported) {grid : ℕ → UInt32} (h : c.Counts grid)
    (hdepth : 0 < c.gridDepth) (hne : c.points ≠ []) (hle : c.points.length ≤ c.chunkTarget) :
    (c.plan grid).chunks.map PlannedChunk.key = [VoxelKey.root] := by
  have htotal := h.total hc
  have hroot : IsEmitter grid c.gridDepth c.chunkTarget VoxelKey.root :=
    ⟨inOctree_root, Nat.zero_le _, by rw [htotal]; exact List.length_pos_iff.mpr hne,
      Or.inr (by rwa [htotal]), fun p hp => by cases hp⟩
  have hzero : emitDepth c.gridDepth c.chunkTarget (cellTotal grid c.gridDepth VoxelKey.root)
      VoxelKey.root = 0 := if_neg hdepth.ne
  have hmem : ∀ v, v ∈ (planOf grid c.gridDepth c.chunkTarget).chunks.map PlannedChunk.key ↔
      v = VoxelKey.root := by
    intro v
    rw [mem_planOf_keys]
    constructor
    · rintro ⟨e, he, hev, hlevel⟩
      obtain rfl := hroot.eq_of_isAncestor he he.1.isAncestor_root
      rw [hzero, Nat.add_zero] at hlevel
      exact (hev.eq_of_level hlevel.symm).symm
    · rintro rfl
      exact ⟨_, hroot, IsAncestor.refl _, by rw [hzero, Nat.add_zero]⟩
  have hnodup : ((planOf grid c.gridDepth c.chunkTarget).chunks.map PlannedChunk.key).Nodup :=
    nodup_plan_keys grid c.gridDepth c.chunkTarget
  rw [plan_eq]
  exact List.perm_singleton.mp ((List.perm_ext_iff_of_nodup hnodup (List.nodup_singleton _)).mpr
    fun v => by rw [hmem, List.mem_singleton])

/-- Points that are not too many for a leaf are one node. -/
lemma Build.nodes_small {r : c.Build} (hc : c.Supported)
    (hr : r.InRange) (hne : c.points ≠ [])
    (hle : c.points.length ≤ maxLeafPoints) : r.nodes = [(VoxelKey.root, c.points.length)] := by
  have hd := r.filesHold hc hr.indexes
  have hbuilt := Build.built_eq hc hr
  obtain ⟨hcons, -, hlist⟩ := OctreeBuilder.buildNodeMap_conserved hd hbuilt
  have hsum := OctreeBuilder.buildNodeMap_sum hd hbuilt
  -- a node that holds points is the root
  have hroot : ∀ k, r.store k ≠ [] → k = VoxelKey.root := by
    intro k hk
    have hunder := OctreeBuilder.buildNodeMap_under_root hd hbuilt hk
    by_contra hneq
    refine hk (stored_eq_zero.mp (hcons.compact VoxelKey.root k (IsAncestor.refl _)
      (hunder.eq_or_proper.resolve_left fun h => hneq h.symm) ?_))
    rw [inside_eq_filter]
    exact (Multiset.card_le_card (Multiset.filter_le _ _)).trans hle
  have hkeys : ∀ k ∈ r.nodes.map Prod.fst, k = VoxelKey.root := by
    intro k hk
    obtain ⟨c', hc', hkc⟩ := hlist.supported k hk
    rw [hroot c' hc'] at hkc
    exact hkc.eq_of_level (Nat.le_zero.mp (VoxelKey.isAncestor_iff.mp hkc).1)
  have hmem : VoxelKey.root ∈ r.nodes.map Prod.fst := by
    obtain ⟨p, hp⟩ := List.exists_mem_of_ne_nil c.points hne
    obtain ⟨e, he, hmem⟩ :=
      (OctreeBuilder.buildNodeMap_mem_iff hd hbuilt p).mpr (Multiset.mem_coe.mpr hp)
    rw [← hroot e.1 (List.ne_nil_of_mem hmem)]
    exact List.mem_map_of_mem he
  have hfst : r.nodes.map Prod.fst = [VoxelKey.root] := by
    refine List.perm_singleton.mp ((List.perm_ext_iff_of_nodup hlist.nodup
      (List.nodup_singleton _)).mpr fun k => ?_)
    rw [List.mem_singleton]
    exact ⟨hkeys k, fun h => h ▸ hmem⟩
  obtain ⟨e, he, hkey⟩ := List.map_eq_singleton_iff.mp hfst
  have hcount := hlist.counts e (he ▸ List.mem_singleton_self e)
  rw [he, List.map_singleton, List.sum_singleton] at hsum
  rw [Multiset.coe_eq_coe.mp hsum |>.length_eq] at hcount
  rw [he, ← hkey, ← hcount]

/-- **No point is lost between the input and a reader of the output.**  However the workers of both
passes were interleaved and in whatever order maps were visited, the file of a build is written when
its parts fit; and whenever it is written, a reader gets every point of the input from it, once. -/
theorem conversion_lossless (hc : c.Supported) (r : c.Build) (hr : r.Fits) (o : IterOrder) :
    (FitsFile c.laz o c.settings r.store r.nodes →
      ∃ file, writeCopc c.laz o c.settings r.store r.nodes = some file) ∧
    ∀ file, writeCopc c.laz o c.settings r.store r.nodes = some file → file.length < 2 ^ 63 →
      ∃ header, Lossless c file header := by
  have hw := Build.writable hc hr
  have hperm := Build.writtenPoints_perm hc hr.toInRange
  refine ⟨fun hfits => exists_writeCopc hw hfits, fun file hwritten hlen => ?_⟩
  obtain ⟨parts⟩ := exists_fileParts hwritten
  have hback := parts.readsBack hw hlen
  refine ⟨parts.header, hback.head, hback.pointFormat, ?_, fun k => ?_, ?_, ?_, fun p hp => ?_⟩
  · rw [hback.totalPoints, hperm.length_eq]
  · rw [hback.returnCounts, hperm.countP_eq]
  · have hsame := (PointStats.pointStats_perm hperm).finished (PointStats.running_pointStats _)
      (PointStats.running_pointStats _)
    obtain ⟨hmin, hmax⟩ := hback.times
    exact ⟨hmin.trans hsame.gpsMin, hmax.trans hsame.gpsMax⟩
  · obtain ⟨pts, need, hall, hpts⟩ := hback.all
    exact ⟨pts, need, hall, hpts.trans (hperm.map _)⟩
  · obtain ⟨e, he, hmem, hkey⟩ := Build.exists_node hc hr.toInRange hp
    obtain ⟨entry, pts, need, hlookup, hpoints, hpts⟩ := hback.found e he
    refine ⟨e.1.level, entry, pts, need, fun fuel hfuel => ?_, hpoints, ?_⟩
    · rw [hkey]
      exact hlookup fuel hfuel
    · exact hpts.1.mem_iff.mpr (List.mem_map_of_mem hmem)

end Conversion

/-! ## Two points -/

/-- A point of an input file without extra bytes. -/
def pairSource (x y z : ℚ) : SourcePoint ℚ 0 where
  pos
    | .x => x
    | .y => y
    | .z => z
  intensity := 0
  returnNumber := 0
  numberOfReturns := 0
  classification := 0
  scanAngle := 0
  userData := 0
  pointSourceId := 0
  gpsTime := none
  rgb := none
  nir := none
  record := []
  width := le_rfl

/-- Two files with a point each. -/
def pairConversion : Conversion ℚ where
  builder := unitBuilder
  totalPoints := 2
  files := [[pairSource (-1) (-2) (-3)], [pairSource 1 2 3]]
  memoryBudget := 2 ^ 30
  cores := 4
  perWorkerCap := 16
  chunkTargetOverride := none
  tempCompression := .none
  lz4 := storedFrames
  pieces := .whole
  laz := storedLaz
  settings := soleSettings

lemma points_pair : pairConversion.points = [pointAt (-1) (-2) (-3), pointAt 1 2 3] := by
  decide +kernel

lemma supported_pair : pairConversion.Supported where
  lz4 := storedFrames_lawful
  laz := storedLaz_lawful _
  format := Or.inl rfl
  numExtraBytes := rfl
  width := by decide
  lazVlr := by decide
  wkt d hd := by cases hd
  extraBytes d hd := by cases hd
  times := by
    rw [points_pair]
    decide
  cells i := List.countP_le_length.trans_lt (show 2 < 2 ^ 32 by norm_num)

/-- The plan of the two points is one chunk, at the root. -/
lemma plan_pair {grid : ℕ → UInt32} (h : pairConversion.Counts grid) :
    (pairConversion.plan grid).chunks.map PlannedChunk.key = [VoxelKey.root] := by
  have hdepth : pairConversion.gridDepth = 7 := by decide +kernel
  have htarget : 2 ≤ pairConversion.chunkTarget := by decide +kernel
  exact h.plan_small supported_pair (by rw [hdepth]; decide)
    (by rw [points_pair]; exact List.cons_ne_nil _ _) (by rw [points_pair]; exact htarget)

lemma length_plan_pair {grid : ℕ → UInt32} (h : pairConversion.Counts grid) :
    (pairConversion.plan grid).chunks.length = 1 := by
  rw [← List.length_map (f := PlannedChunk.key), plan_pair h]
  rfl

lemma shallow_pair {grid : ℕ → UInt32} (h : pairConversion.Counts grid) :
    ∀ chunk ∈ (pairConversion.plan grid).chunks, chunk.level ≤ 6 := by
  intro chunk hchunk
  have hkey := List.mem_map_of_mem (f := PlannedChunk.key) hchunk
  rw [plan_pair h, List.mem_singleton] at hkey
  have hlevel : chunk.level = 0 := congrArg VoxelKey.level hkey
  rw [hlevel]
  exact Nat.zero_le 6

lemma inRange_pair (r : pairConversion.Build) : r.InRange := by
  refine ⟨?_, OctreeBuilder.leavesInRange_of_shallow (shallow_pair r.counted)⟩
  rw [length_plan_pair r.counted]
  decide

/-- The two points are one node. -/
lemma nodes_pair (r : pairConversion.Build) : r.nodes = [(VoxelKey.root, 2)] := by
  have h := Conversion.Build.nodes_small supported_pair (inRange_pair r)
    (by rw [points_pair]; exact List.cons_ne_nil _ _) (by rw [points_pair]; decide)
  rwa [points_pair] at h

lemma fits_pair (r : pairConversion.Build) : r.Fits := by
  have hmem : ∀ e ∈ r.nodes, e = (VoxelKey.root, 2) := fun e he => by
    rwa [nodes_pair, List.mem_singleton] at he
  refine ⟨inRange_pair r, fun e he => ?_, fun e he => ?_, fun e he chunk h => ?_⟩
  · rw [hmem e he]
    decide
  · rw [hmem e he]
    decide
  · have hlen : chunk.length = 60 := by
      rw [Conversion.Build.length_chunk supported_pair (inRange_pair r) he h, hmem e he]
      rfl
    exact hlen.trans_lt (by norm_num)

/-- The file has a head, one chunk and its table before the hierarchy, which is one page. -/
lemma length_pair (r : pairConversion.Build) :
    ((soleSettings.head storedLaz r.nodes).front ++
      storedLaz.pointData (soleSettings.head storedLaz r.nodes).front.length
        (writtenState .listed soleSettings r.store r.nodes).chunks).length = 727 ∧
      maxLevelOf ((orderedNodes r.nodes).map Prod.fst) = 0 := by
  have hw : Writable storedLaz soleSettings r.store r.nodes :=
    Conversion.Build.writable supported_pair (fits_pair r)
  have hpoints : (writtenPoints r.store r.nodes).length = 2 := by
    rw [(Conversion.Build.writtenPoints_perm supported_pair (inRange_pair r)).length_eq,
      points_pair]
    rfl
  have hfront : (soleSettings.head storedLaz r.nodes).offsetToPointData.toNat = 643 := rfl
  have hkeys : dataKeys r.nodes = [(VoxelKey.root, 2)] := by
    rw [nodes_pair]
    decide +kernel
  refine ⟨?_, ?_⟩
  · rw [hw.length_stored .listed, hfront, hpoints, hkeys]
    rfl
  · rw [nodes_pair]
    decide +kernel

/-- The two points, in separate files, are converted and read back. -/
theorem conversion_lossless_pair : ∃ (r : pairConversion.Build) (file : List UInt8)
    (header : CopcHeader),
    writeCopc storedLaz .listed soleSettings r.store r.nodes = some file ∧
      pairConversion.Lossless file header := by
  obtain ⟨r⟩ := Conversion.exists_build supported_pair 0 0
    (fun grid h => by rw [length_plan_pair h]; decide) (fun grid h => shallow_pair h)
    (le_trans (by rw [points_pair]; decide) (le_max_right _ _))
  obtain ⟨hwritten, hread⟩ :=
    Conversion.conversion_lossless supported_pair r (fits_pair r) .listed
  obtain ⟨hdata, hlevel⟩ := length_pair r
  obtain ⟨file, hfile⟩ := hwritten
    { levels := fun e he => by
        rw [nodes_pair, List.mem_singleton] at he
        rw [he]
        decide
      hierarchy := by
        rw [hlevel, nodes_pair]
        decide
      temporal := fun stride hstride => by cases hstride
      pointData := by
        rw [← writtenState]
        exact hdata.trans_lt (by norm_num) }
  have hlen := @length_file_le storedLaz .listed soleSettings r.store r.nodes file rfl hfile
  rw [hdata, hlevel, nodes_pair] at hlen
  obtain ⟨header, hheader⟩ := hread file hfile (hlen.trans_lt (by decide))
  exact ⟨r, file, header, hfile, hheader⟩

end CopcConverter
