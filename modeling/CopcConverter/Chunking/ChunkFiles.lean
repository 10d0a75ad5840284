import CopcConverter.Chunking.ComputePlan
import CopcConverter.Chunking.Distribute
import CopcConverter.Octree.StoredPoint

/-!
# The chunk files

Distributing the points is done when every planned chunk has its file: the points that are routed to
the chunk, in the order of the input, with a counter that says how many there are.  Every input file
is streamed by exactly one worker.  However the workers are interleaved, none gets stuck while
points are routed to planned chunks, and merging the shards of the workers, in their order, leaves
these files.

The proof follows a worker through its batches: what it has appended so far is in its shard, and
what all workers have counted so far is in the counters.  Chunks are numbered with 32 bits, so that
a plan with more chunks than that loses some of its files when the shards are merged; such a plan
takes a chunk target of one and some hundred million points.
-/

namespace CopcConverter

open CubeGrid LevelTree Lists Reader Workers

variable {F : Type} [FloatArith F]

/-! ## All shards -/

section All

variable {b : OctreeBuilder F} {plan : ChunkPlan} {lut : ChunkLut} {lz4 : FrameCodec}
  {pieces : BufWriter.Pieces} {codec : TempCompression}

/-- The shards of all workers, one after the other, hold the points of all workers. -/
lemma merged_shards {parts : List (List RawPoint)} {shards : List ShardFiles}
    (h : List.Forall₂ (ShardHolds b plan lut lz4 codec) parts shards) (k : UInt32) :
    ∃ batches : List (List RawPoint),
      (∀ batch ∈ batches, batch.length < 2 ^ 32 ∧ Carries b.numExtraBytes batch) ∧
      batches.flatten = parts.flatten.filter (fun p => b.chunkIndexOf plan lut p = some k) ∧
      (shards.filterMap fun shard => shard k).flatten = fileBytes lz4 codec batches := by
  induction h with
  | nil => exact ⟨[], by simp, rfl, rfl⟩
  | @cons points shard parts shards hshard _ ih =>
    obtain ⟨batches, hgood, hflat, hbytes⟩ := ih
    obtain ⟨front, hfront, hpoints, hfile⟩ := hshard k
    refine ⟨front ++ batches, fun batch hbatch => ?_, ?_, ?_⟩
    · exact (List.mem_append.mp hbatch).elim (hfront batch) (hgood batch)
    · rw [List.flatten_append, List.flatten_cons, List.filter_append, hpoints, hflat]
    · have hboth : fileBytes lz4 codec (front ++ batches) =
          fileBytes lz4 codec front ++ fileBytes lz4 codec batches := List.flatMap_append
      rw [hboth, ← hbytes, List.filterMap_cons, hfile]
      by_cases hnil : front = []
      · rw [hnil, if_pos rfl]
        rfl
      · rw [if_neg hnil]
        rfl

/-- The workers at the end of a run: each shard holds the points of the files of its worker, and the
counters the numbers of points. -/
lemma crew_finished {size numWorkers cap : ℕ} (hsize : size < 2 ^ 32) {o : IterOrder}
    {files : List (StreamedFile size b.numExtraBytes)}
    {start crew : Crew WorkerStep (List UInt64) ShardState} {schedule : List ℕ}
    (hstart : b.distributeStart o plan cap codec numWorkers files = some start)
    (hrun : start.run WorkerStep.onCounts (WorkerStep.onShard lz4 pieces o) schedule = some crew)
    (hdone : crew.Finished) :
    List.Forall₂ (fun w worker => ShardHolds b plan (buildChunkLut plan) lz4 codec
        ((workerFiles files numWorkers w).flatMap StreamedFile.points) worker.own.files)
      (List.range numWorkers) crew.workers ∧
    ∀ k : UInt32, k.toNat < plan.chunks.length → crew.shared[k.toNat]? =
      some (UInt64.ofNat (((List.range numWorkers).flatMap
        (workerFiles files numWorkers)).flatMap StreamedFile.points |>.filter fun p =>
          b.chunkIndexOf plan (buildChunkLut plan) p = some k).length) := by
  obtain ⟨programs, hprograms, rfl⟩ := Option.map_eq_some_iff.mp hstart
  have hprogram := forall₂_of_mapM hprograms
  obtain ⟨⟨trace, hperm, htrace⟩, hall⟩ := run_finished hrun hdone
  refine ⟨forall₂_chain (fun w todo worker hsteps hworker => ?_) hprogram
    (List.forall₂_map_left_iff.mp hall), fun k hk => ?_⟩
  · exact shardHolds_of_run hsize hsteps hworker.own
  · obtain ⟨-, hget⟩ := foldlM_onCounts htrace
    rw [List.flatMap_map, List.flatMap_id'] at hperm
    rw [hget, (hperm.map _).sum_eq, sum_tallyOf_workers hprogram, List.getElem?_replicate,
      if_pos hk, Option.map_some, UInt64.zero_add]

/-- Points that are all routed can be grouped. -/
lemma exists_groupPoints {batch : List RawPoint}
    (h : ∀ p ∈ batch, ∃ i, b.chunkIndexOf plan lut p = some i) :
    ∃ groups, b.groupPoints plan lut batch = some groups := by
  unfold OctreeBuilder.groupPoints
  generalize (∅ : BucketMap UInt32 RawPoint) = start
  induction batch generalizing start with
  | nil => exact ⟨start, rfl⟩
  | cons p batch ih =>
    obtain ⟨i, hi⟩ := h p List.mem_cons_self
    rw [List.foldlM_cons, hi]
    exact ih (fun q hq => h q (List.mem_cons_of_mem _ hq)) _

/-- A worker whose points are all routed has a program. -/
lemma exists_workerSteps {size : ℕ} {numExtraBytes : UInt16} (o : IterOrder) (workerId : ℕ)
    {files : List (StreamedFile size numExtraBytes)}
    (h : ∀ file ∈ files, ∀ p ∈ file.points, ∃ i, b.chunkIndexOf plan lut p = some i) :
    ∃ steps, b.workerSteps o plan lut workerId files = some steps := by
  unfold OctreeBuilder.workerSteps
  split_ifs
  · exact ⟨[], rfl⟩
  · obtain ⟨parts, hparts⟩ := @exists_mapM _ _ (fun e : List RawPoint × ℕ =>
      (b.groupPoints plan lut e.1).map (drainSteps (o.sub e.2)))
      (files.flatMap StreamedFile.batches).zipIdx fun e he => by
        obtain ⟨file, hfile, hbatch⟩ := List.mem_flatMap.mp (List.fst_mem_of_mem_zipIdx he)
        obtain ⟨groups, hgroups⟩ := exists_groupPoints fun p hp =>
          h file hfile p (List.mem_flatten.mpr ⟨e.1, hbatch, hp⟩)
        exact ⟨_, by rw [hgroups, Option.map_some]⟩
    exact ⟨_, by rw [hparts, Option.map_some]⟩

/-- The files of a worker are input files. -/
lemma mem_of_mem_workerFiles {α : Type} {files : List α} {numWorkers w : ℕ} {file : α}
    (h : file ∈ workerFiles files numWorkers w) : file ∈ files := by
  rw [workerFiles_eq] at h
  exact List.mem_of_mem_drop (List.mem_of_mem_take h)

/-- The program of a worker runs through on its own shard. -/
lemma exists_onShard {size : ℕ} {o o' : IterOrder} {workerId cap : ℕ}
    {files : List (StreamedFile size b.numExtraBytes)} {steps : List WorkerStep}
    (h : b.workerSteps o plan lut workerId files = some steps) :
    ∃ st, steps.foldlM (fun st x => x.onShard lz4 pieces o' st)
      (ShardState.start cap b.numExtraBytes codec) = some st := by
  obtain ⟨body, hover, hsteps⟩ := workerSteps_spec h
  rcases hsteps with rfl | ⟨rfl, -⟩
  · obtain ⟨st, hst⟩ := @exists_appendAll lz4 pieces cap b.numExtraBytes codec (callsOf body)
      fun c hc => by
        obtain ⟨batch, hbatch, hsub⟩ := hover.part c hc
        obtain ⟨file, -, hmem⟩ := List.mem_flatMap.mp hbatch
        exact fun p hp => file.carries batch hmem p (hsub.subset hp)
    refine ⟨st.flushAll (o'.sub workerId), ?_⟩
    rw [List.foldlM_append, foldlM_onShard hover.unflushed, hst]
    rfl
  · exact ⟨_, rfl⟩

/-- When every point is routed to a planned chunk, no step of any worker fails. -/
lemma ready_start {size cap : ℕ} (numWorkers : ℕ) (o : IterOrder)
    {files : List (StreamedFile size b.numExtraBytes)}
    (hrouted : ∀ file ∈ files, ∀ p ∈ file.points, ∃ i : UInt32,
      b.chunkIndexOf plan (buildChunkLut plan) p = some i ∧ i.toNat < plan.chunks.length) :
    ∃ start, b.distributeStart o plan cap codec numWorkers files = some start ∧
      Ready WorkerStep.onCounts (WorkerStep.onShard lz4 pieces o)
        (fun counts => counts.length = plan.chunks.length) start := by
  obtain ⟨programs, hprograms⟩ := @exists_mapM _ _ (fun w => b.workerSteps (o.sub w) plan
    (buildChunkLut plan) w (workerFiles files numWorkers w)) (List.range numWorkers) fun w _ =>
      exists_workerSteps _ w fun file hfile p hp => by
        obtain ⟨i, hi, -⟩ := hrouted file (mem_of_mem_workerFiles hfile) p hp
        exact ⟨i, hi⟩
  refine ⟨_, by rw [OctreeBuilder.distributeStart, hprograms, Option.map_some], ?_⟩
  have hworker : ∀ todo ∈ programs, ∃ w, b.workerSteps (o.sub w) plan (buildChunkLut plan) w
      (workerFiles files numWorkers w) = some todo := by
    intro todo htodo
    obtain ⟨w, -, hw⟩ := exists_of_mem_mapM hprograms htodo
    exact ⟨w, hw⟩
  refine ⟨List.length_replicate, fun worker hmem x hx counts hlen => ?_, fun worker hmem => ?_⟩
  · obtain ⟨todo, htodo, rfl⟩ := List.mem_map.mp hmem
    obtain ⟨w, hw⟩ := hworker todo htodo
    obtain ⟨body, hover, hsteps⟩ := workerSteps_spec hw
    have hbody : x ∈ body ∨ x = .flushAll w := by
      rcases hsteps with rfl | ⟨rfl, -⟩
      · exact (List.mem_append.mp hx).imp_right List.mem_singleton.mp
      · cases hx
    rcases hbody with hbody | rfl
    · cases x with
      | tally i n =>
        obtain ⟨p, hp, hi⟩ := hover.counters i n hbody
        rw [flatten_fileBatches] at hp
        obtain ⟨file, hfile, hp⟩ := List.mem_flatMap.mp hp
        obtain ⟨j, hj, hlt⟩ := hrouted file (mem_of_mem_workerFiles hfile) p hp
        obtain rfl := Option.some.inj (hi.symm.trans hj)
        refine ⟨_, if_pos (hlen ▸ hlt), ?_⟩
        rw [List.length_modify, hlen]
      | append i points => exact ⟨counts, rfl, hlen⟩
      | flushAll w' => exact absurd hbody (hover.unflushed w')
    · exact ⟨counts, rfl, hlen⟩
  · obtain ⟨todo, htodo, rfl⟩ := List.mem_map.mp hmem
    obtain ⟨w, hw⟩ := hworker todo htodo
    exact exists_onShard hw

end All

/-! ## The chunk files -/

/-- A worker streams the file at an index of the input. -/
def Streams {α : Type} (files : List α) (numWorkers w i : ℕ) : Prop :=
  ∃ j, workerStart files.length numWorkers w + j = i ∧
    j < (workerFiles files numWorkers w).length ∧ (workerFiles files numWorkers w)[j]? = files[i]?

/-- The canonical file of a planned chunk is there and reads back as the points that are routed to
the chunk, in the order of the input; the counter of the chunk is their number, and so is the count
of the file. -/
structure ChunkFileHolds (b : OctreeBuilder F) (plan : ChunkPlan) (lz4 : FrameCodec)
    (codec : TempCompression) (points : List RawPoint) (canonical : ShardFiles)
    (counts : List UInt64) (i : ℕ) (bytes : List UInt8) : Prop where
  file : canonical (UInt32.ofNat i) = some bytes
  reads : ∃ need, ∀ fuel, need < fuel → ∀ {σ : Type} (read : ReadFn σ) (s : σ),
    Delivers read s bytes → readTempBatches lz4 codec b.numExtraBytes read s fuel =
      some (points.filter fun p =>
        b.chunkIndexOf plan (buildChunkLut plan) p = some (UInt32.ofNat i))
  counter : counts[i]? = some (UInt64.ofNat (points.filter fun p =>
    b.chunkIndexOf plan (buildChunkLut plan) p = some (UInt32.ofNat i)).length)
  counted : ∃ need, ∀ fuel, need < fuel → ∀ file : FileHandle, file.At bytes →
    countTempFilePoints lz4 codec b.numExtraBytes (some file) fuel = counts[i]?

/-- Every file is streamed by one worker. -/
lemma existsUnique_streams {α : Type} {files : List α} {numWorkers i : ℕ} (hpos : 0 < numWorkers)
    (hi : i < files.length) : ∃! w, w < numWorkers ∧ Streams files numWorkers w i := by
  have hrange : ∀ w, Streams files numWorkers w i ↔ workerStart files.length numWorkers w ≤ i ∧
      i < workerEnd files.length numWorkers w := by
    intro w
    unfold Streams
    rw [workerFiles_eq, List.length_take, List.length_drop, workerEnd]
    constructor
    · rintro ⟨j, rfl, hj, -⟩
      omega
    · rintro ⟨hle, hlt⟩
      refine ⟨i - workerStart files.length numWorkers w, by omega, by omega, ?_⟩
      rw [List.getElem?_take_of_lt (by omega), List.getElem?_drop, Nat.add_sub_cancel' hle]
  simp only [hrange]
  exact existsUnique_worker hpos hi

lemma readChunkSize_le (memoryBudget numWorkers : ℕ) (numExtraBytes : UInt16) :
    readChunkSize memoryBudget numWorkers numExtraBytes ≤ 2000000 := by
  unfold readChunkSize
  simp only
  omega

/-- For fewer than `2 ^ 32` chunks: every file is streamed by one worker; no interleaving of the
workers gets stuck while all points are routed to planned chunks; and however the workers were
interleaved, at the end every planned chunk has its file and its counter. -/
theorem distribute_chunkFiles {lz4 : FrameCodec} (hlz4 : lz4.Lawful) (pieces : BufWriter.Pieces)
    (b : OctreeBuilder F) (plan : ChunkPlan) (hplan : plan.chunks.length < 2 ^ 32)
    (codec : TempCompression) (o o' : IterOrder) (memoryBudget perWorkerCap : ℕ) {numWorkers : ℕ}
    (hworkers : 0 < numWorkers)
    (files : List (StreamedFile (readChunkSize memoryBudget numWorkers b.numExtraBytes)
      b.numExtraBytes)) :
    (∀ i < files.length, ∃! w, w < numWorkers ∧ Streams files numWorkers w i) ∧
    ((∀ file ∈ files, ∀ p ∈ file.points, ∃ i : UInt32,
        b.chunkIndexOf plan (buildChunkLut plan) p = some i ∧ i.toNat < plan.chunks.length) →
      ∃ start, b.distributeStart o plan perWorkerCap codec numWorkers files = some start ∧
        ∀ schedule mid,
          start.run WorkerStep.onCounts (WorkerStep.onShard lz4 pieces o) schedule = some mid →
          ∃ more crew,
            mid.run WorkerStep.onCounts (WorkerStep.onShard lz4 pieces o) more = some crew ∧
              crew.Finished) ∧
    ∀ start schedule crew,
      b.distributeStart o plan perWorkerCap codec numWorkers files = some start →
      start.run WorkerStep.onCounts (WorkerStep.onShard lz4 pieces o) schedule = some crew →
      crew.Finished → ∀ i < plan.chunks.length, ∃ bytes,
        ChunkFileHolds b plan lz4 codec (files.flatMap StreamedFile.points)
          (chunkFilesOf o' plan crew) crew.shared i bytes := by
  refine ⟨fun i hi => existsUnique_streams hworkers hi, fun hrouted => ?_,
    fun start schedule crew hstart hrun hdone i hi => ?_⟩
  · obtain ⟨start, hstart, hready⟩ := ready_start numWorkers o hrouted
    exact ⟨start, hstart, fun schedule mid hmid => (hready.run hmid).exists_finish⟩
  · have hsize := (readChunkSize_le memoryBudget numWorkers b.numExtraBytes).trans_lt
      (show 2000000 < 2 ^ 32 by norm_num)
    have hi32 : i < 2 ^ 32 := hi.trans hplan
    have hnat : (UInt32.ofNat i).toNat = i := by
      rw [UInt32.toNat_ofNat', Nat.mod_eq_of_lt hi32]
    obtain ⟨hshards, hcounts⟩ := crew_finished hsize hstart hrun hdone
    rw [flatMap_workerFiles files hworkers] at hcounts
    have hparts : List.Forall₂ (ShardHolds b plan (buildChunkLut plan) lz4 codec)
        ((List.range numWorkers).map fun w =>
          (workerFiles files numWorkers w).flatMap StreamedFile.points)
        (crew.workers.map fun w => w.own.files) :=
      List.forall₂_map_left_iff.mpr (List.forall₂_map_right_iff.mpr hshards)
    obtain ⟨batches, hgood, hflat, hbytes⟩ := merged_shards hparts (UInt32.ofNat i)
    have hpoints : ((List.range numWorkers).map fun w =>
        (workerFiles files numWorkers w).flatMap StreamedFile.points).flatten =
          files.flatMap StreamedFile.points := by
      rw [← List.flatMap_def, ← List.flatMap_assoc, flatMap_workerFiles files hworkers]
    rw [hpoints] at hflat
    have hcounter := hcounts (UInt32.ofNat i) (by rwa [hnat])
    rw [hnat] at hcounter
    refine ⟨fileBytes lz4 codec batches, ?_, ⟨batches.length, ?_⟩, hcounter, batches.length, ?_⟩
    · have hlt : UInt32.ofNat i < UInt32.ofNat plan.chunks.length := by
        rw [UInt32.lt_iff_toNat_lt, hnat, UInt32.toNat_ofNat', Nat.mod_eq_of_lt hplan]
        exact hi
      rw [chunkFilesOf, mergeChunkShards_apply, if_pos hlt, hbytes]
    · intro fuel hfuel σ read s hdel
      rw [readTempBatches_spec hlz4 (fun batch hbatch => (hgood batch hbatch).1)
        (fun batch hbatch => (hgood batch hbatch).2) hdel hfuel, hflat]
    · intro fuel hfuel file hat
      rw [countTempFilePoints_spec hlz4 (fun batch hbatch => (hgood batch hbatch).1)
        (fun batch hbatch => (hgood batch hbatch).2) hat hfuel, hflat, hcounter]

/-- Three points in the first cell and two in the last. -/
def cornersGrid (i : ℕ) : UInt32 := if i = 0 then 3 else if i = 7 then 2 else 0

/-- Either cell is a chunk of its own. -/
lemma planOf_corners : planOf cornersGrid 1 3 = ⟨2, 1, [⟨1, 0, 0, 0, 3⟩, ⟨1, 1, 1, 1, 2⟩]⟩ := rfl

/-- Three files; the first one has points of both cells, in two batches. -/
def cornersFiles : List (StreamedFile (readChunkSize (2 ^ 30) 2 unitBuilder.numExtraBytes)
    unitBuilder.numExtraBytes) :=
  [⟨[[pointAt (-1) (-2) (-3), pointAt 1 2 3], [pointAt (-4) (-1) (-1)]],
      by decide, by decide, by decide⟩,
    ⟨[[pointAt 3 2 1]], by decide, by decide, by decide⟩,
    ⟨[[pointAt (-7) (-1) (-2)]], by decide, by decide, by decide⟩]

/-- Two workers distribute the three files over two chunks. -/
theorem distribute_chunkFiles_corners :
    ∃ crew : Crew WorkerStep (List UInt64) ShardState, crew.Finished ∧ ∀ i < 2, ∃ bytes,
      ChunkFileHolds unitBuilder (planOf cornersGrid 1 3) storedFrames .lz4
        (cornersFiles.flatMap StreamedFile.points)
        (chunkFilesOf .listed (planOf cornersGrid 1 3) crew) crew.shared i bytes := by
  obtain ⟨-, hprogress, hfiles⟩ := distribute_chunkFiles storedFrames_lawful .whole unitBuilder
    (planOf cornersGrid 1 3) (by rw [planOf_corners]; decide) .lz4 .listed .listed (2 ^ 30) 16
    Nat.two_pos cornersFiles
  obtain ⟨start, hstart, hfinish⟩ := hprogress (by
    rw [planOf_corners]
    decide +kernel)
  obtain ⟨schedule, crew, hrun, hdone⟩ := hfinish [] start rfl
  exact ⟨crew, hdone, fun i hi => hfiles start schedule crew hstart hrun hdone i
    (by rwa [planOf_corners])⟩

/-! ## Too many chunks -/

/-- A cube of 128 cells a side, each cell a unit around a whole number. -/
def crowdedBuilder : OctreeBuilder ℚ :=
  { unitBuilder with cx := 127 / 2, cy := 127 / 2, cz := 127 / 2, halfsize := 64 }

/-- The point in the middle of a cell of the lowest layer. -/
def crowdedPoint (x y : ℕ) : RawPoint := pointAt (Int32.ofNat x) (Int32.ofNat y) 0

/-- Forty thousand points in every cell of the lowest layer. -/
def crowdedBatches : List (List RawPoint) :=
  (List.range 128).flatMap fun x => (List.range 128).map fun y =>
    List.replicate 40000 (crowdedPoint x y)

/-- Their plan with a memory budget of 256 MiB and a chunk target of one point. -/
def crowdedPlan : ChunkPlan :=
  crowdedBuilder.computeChunkPlan 655360000 (2 ^ 28) 1 (some 1) crowdedBatches.flatten

/-- The counts of the cells. -/
def crowdedGrid : ℕ → UInt32 := crowdedBuilder.countPoints (2 ^ 7) 7 crowdedBatches.flatten

lemma crowdedPlan_eq : crowdedPlan = planOf crowdedGrid 7 1 := by
  have hdepth : trailingZeros (selectGridSize 655360000 (2 ^ 28)) = 7 := by decide +kernel
  have hplan := crowdedBuilder.computeChunkPlan_eq 655360000 (2 ^ 28) 1 (some 1)
    crowdedBatches.flatten
  rw [hdepth] at hplan
  exact hplan

lemma mem_crowdedBatches {batch : List RawPoint} : batch ∈ crowdedBatches ↔
    ∃ x < 128, ∃ y < 128, batch = List.replicate 40000 (crowdedPoint x y) := by
  unfold crowdedBatches
  rw [List.mem_flatMap]
  simp only [List.mem_map, List.mem_range, eq_comm (a := batch)]

/-- The cell of a point along one axis. -/
def crowdedCell (x y : ℕ) : Axis → ℕ
  | .x => x
  | .y => y
  | .z => 0

/-- The points are in the middle of their cells. -/
lemma world_crowdedPoint {x y : ℕ} (hx : x < 128) (hy : y < 128) (a : Axis) :
    crowdedBuilder.world a (crowdedPoint x y) = crowdedCell x y a ∧ crowdedCell x y a < 128 := by
  have hint : ∀ n < 128, (Int32.ofNat n).toInt = n := by decide
  have hworld : crowdedBuilder.world a (crowdedPoint x y) =
      ((crowdedPoint x y).coord a).toInt * 1 + 0 := by cases a <;> rfl
  rw [hworld, mul_one, add_zero]
  cases a with
  | x =>
    rw [show (crowdedPoint x y).coord .x = Int32.ofNat x from rfl, hint x hx]
    exact ⟨rfl, hx⟩
  | y =>
    rw [show (crowdedPoint x y).coord .y = Int32.ofNat y from rfl, hint y hy]
    exact ⟨rfl, hy⟩
  | z => exact ⟨rfl, Nat.succ_pos 127⟩

/-- The voxel of a point at the depth of the grid. -/
lemma keyOf_crowdedPoint {x y : ℕ} (hx : x < 128) (hy : y < 128) :
    crowdedBuilder.keyOf (crowdedPoint x y) 7 = ⟨7, x, y, 0⟩ := by
  have hcenter : ∀ a, crowdedBuilder.center a = 127 / 2 := by
    intro a
    cases a <;> rfl
  have hcube : ∀ a, |crowdedBuilder.world a (crowdedPoint x y) - crowdedBuilder.center a| <
      crowdedBuilder.halfsize := by
    intro a
    obtain ⟨hworld, hlt⟩ := world_crowdedPoint hx hy a
    have hle : (crowdedCell x y a : ℚ) ≤ 127 := by exact_mod_cast Nat.le_of_lt_succ hlt
    have hpos : (0 : ℚ) ≤ crowdedCell x y a := Nat.cast_nonneg _
    rw [hworld, hcenter, show crowdedBuilder.halfsize = 64 from rfl, abs_lt]
    constructor <;> linarith
  have hcoord : ∀ a, (crowdedBuilder.keyOf (crowdedPoint x y) 7).coord a = crowdedCell x y a := by
    intro a
    obtain ⟨hlow, hhigh⟩ := OctreeBuilder.keyOf_contains hcube 7 a
    have hsize : crowdedBuilder.voxelSize (crowdedBuilder.keyOf (crowdedPoint x y) 7) = 1 := by
      change (2 * 64 / 2 ^ 7 : ℚ) = 1
      norm_num
    rw [(world_crowdedPoint hx hy a).1, OctreeBuilder.lowerCorner, hsize, hcenter,
      show crowdedBuilder.halfsize = 64 from rfl] at hlow hhigh
    set v := (crowdedBuilder.keyOf (crowdedPoint x y) 7).coord a
    have hle : (v : ℚ) < crowdedCell x y a + 1 := by linarith
    have hge : (crowdedCell x y a : ℚ) < v + 1 := by linarith
    have hle' : v < crowdedCell x y a + 1 := by exact_mod_cast hle
    have hge' : crowdedCell x y a < v + 1 := by exact_mod_cast hge
    omega
  have hx' := hcoord .x
  have hy' := hcoord .y
  have hz' := hcoord .z
  simp only [VoxelKey.coord, crowdedCell] at hx' hy' hz'
  exact VoxelKey.eq_of_coords rfl hx' hy' hz'

/-- The number of points. -/
lemma length_crowdedBatches : crowdedBatches.flatten.length = 655360000 := by
  have hrow : ∀ x, ((List.range 128).map fun y =>
      List.replicate 40000 (crowdedPoint x y)).flatten.length = 5120000 := by
    intro x
    rw [List.length_flatten, List.map_map, List.sum_eq_card_nsmul _ 40000, List.length_map,
      List.length_range]
    · norm_num
    · intro n hn
      obtain ⟨y, -, rfl⟩ := List.mem_map.mp hn
      exact List.length_replicate
  rw [crowdedBatches, List.flatMap_def, List.flatten_flatten, List.length_flatten, List.map_map,
    List.map_map, List.sum_eq_card_nsmul _ 5120000, List.length_map, List.length_range]
  · norm_num
  · intro n hn
    obtain ⟨x, -, rfl⟩ := List.mem_map.mp hn
    exact hrow x

/-- The number of points in a cell of the lowest layer. -/
lemma cellTotal_crowded {x y : ℕ} (hx : x < 128) (hy : y < 128) :
    40000 ≤ cellTotal crowdedGrid 7 ⟨7, x, y, 0⟩ := by
  have hlen : crowdedBatches.flatten.length < 2 ^ 32 := by
    rw [length_crowdedBatches]
    norm_num
  have hsub : (List.replicate 40000 (crowdedPoint x y)).Sublist crowdedBatches.flatten :=
    List.sublist_flatten_of_mem (mem_crowdedBatches.mpr ⟨x, hx, y, hy, rfl⟩)
  have hcount := hsub.countP_le (p := fun q =>
    decide (crowdedBuilder.keyOf q 7 = crowdedBuilder.keyOf (crowdedPoint x y) 7))
  rw [List.countP_replicate, if_pos (decide_eq_true rfl)] at hcount
  rw [← keyOf_crowdedPoint hx hy]
  exact hcount.trans_eq (crowdedBuilder.cellTotal_countPoints hlen (crowdedPoint x y)).symm

/-- The cells of the lowest layer are split as deep as a cell can be. -/
lemma emitter_crowded {x y : ℕ} (hx : x < 128) (hy : y < 128) :
    IsEmitter crowdedGrid 7 1 ⟨7, x, y, 0⟩ ∧
      emitDepth 7 1 (cellTotal crowdedGrid 7 ⟨7, x, y, 0⟩) ⟨7, x, y, 0⟩ = 6 := by
  have htotal := cellTotal_crowded hx hy
  refine ⟨⟨⟨hx, hy, Nat.two_pow_pos 7⟩, le_rfl, by omega, Or.inl rfl, fun parent hparent => ?_⟩, ?_⟩
  · have hle : cellTotal crowdedGrid 7 ⟨7, x, y, 0⟩ ≤ cellTotal crowdedGrid 7 parent :=
      cellTotal_le_of_parent le_rfl hparent
    omega
  · rw [emitDepth, if_pos rfl]
    refine (splitExtraLevels_least _ _).unique ⟨le_rfl, fun j hj => ?_, Or.inl rfl⟩
    have hpow : 8 ^ j ≤ 8 ^ 5 := Nat.pow_le_pow_right (by norm_num) (by omega)
    omega

/-- There are as many chunks as there are numbers of 32 bits, or more. -/
lemma length_crowdedPlan : 2 ^ 32 ≤ crowdedPlan.chunks.length := by
  set keys : List VoxelKey := (List.range 8192 ×ˢ (List.range 8192 ×ˢ List.range 64)).map
    fun c => ⟨13, c.1, c.2.1, c.2.2⟩ with hkeys
  have hnodup : keys.Nodup := by
    apply (List.nodup_range.product (List.nodup_range.product List.nodup_range)).map
    rintro ⟨x, y, z⟩ ⟨x', y', z'⟩ h
    simp only [VoxelKey.mk.injEq] at h
    obtain ⟨-, rfl, rfl, rfl⟩ := h
    rfl
  have hsub : keys ⊆ crowdedPlan.chunks.map PlannedChunk.key := by
    intro k hk
    obtain ⟨⟨x, y, z⟩, hc, rfl⟩ := List.mem_map.mp hk
    simp only [List.mem_product, List.mem_range] at hc
    obtain ⟨hx, hy, hz⟩ := hc
    rw [crowdedPlan_eq, mem_planOf_keys]
    obtain ⟨hemit, hdepth⟩ := emitter_crowded (x := x / 64) (y := y / 64) (by omega) (by omega)
    refine ⟨⟨7, x / 64, y / 64, 0⟩, hemit, ?_, ?_⟩
    · refine VoxelKey.isAncestor_iff.mpr ⟨(by decide : 7 ≤ 13), ?_, ?_, ?_⟩
      · exact Nat.shiftRight_eq_div_pow _ _
      · exact Nat.shiftRight_eq_div_pow _ _
      · exact (Nat.shiftRight_eq_div_pow _ _).trans (Nat.div_eq_of_lt hz)
    · rw [hdepth]
  have hlen := (List.subperm_of_subset hnodup hsub).length_le
  rw [hkeys, List.length_map, List.length_map, List.length_product, List.length_product,
    List.length_range, List.length_range] at hlen
  exact (by norm_num : 2 ^ 32 ≤ 8192 * (8192 * 64)).trans hlen

/-- The input file with all the points. -/
def crowdedFile : StreamedFile (readChunkSize (2 ^ 28) 1 crowdedBuilder.numExtraBytes)
    crowdedBuilder.numExtraBytes where
  batches := crowdedBatches
  nonempty batch hbatch := by
    obtain ⟨x, -, y, -, rfl⟩ := mem_crowdedBatches.mp hbatch
    exact List.ne_nil_of_length_pos (by rw [List.length_replicate]; norm_num)
  size batch hbatch := by
    obtain ⟨x, -, y, -, rfl⟩ := mem_crowdedBatches.mp hbatch
    rw [List.length_replicate]
    exact (by norm_num : 40000 ≤ 50000).trans (le_max_left _ _)
  carries batch hbatch p hp := by
    obtain ⟨x, -, y, -, rfl⟩ := mem_crowdedBatches.mp hbatch
    rw [List.eq_of_mem_replicate hp]
    rfl

/-- The points are distributed without a failure, but some planned chunk has no file afterwards: the
merge counts the chunks with 32 bits. -/
theorem crowded_file_missing : ∃ start schedule crew,
    crowdedBuilder.distributeStart .listed crowdedPlan 16 .none 1 [crowdedFile] = some start ∧
    start.run WorkerStep.onCounts (WorkerStep.onShard storedFrames .whole .listed) schedule =
      some crew ∧ crew.Finished ∧
    ∃ i < crowdedPlan.chunks.length,
      chunkFilesOf .listed crowdedPlan crew (UInt32.ofNat i) = none := by
  have hlen := length_crowdedPlan
  obtain ⟨start, hstart, hready⟩ := @ready_start ℚ _ crowdedBuilder crowdedPlan storedFrames .whole
    .none (readChunkSize (2 ^ 28) 1 crowdedBuilder.numExtraBytes) 16 1 .listed [crowdedFile] (by
      intro file hfile p hp
      obtain rfl := List.mem_singleton.mp hfile
      obtain ⟨batch, hbatch, hp⟩ := List.mem_flatten.mp hp
      obtain ⟨x, hx, y, hy, rfl⟩ := mem_crowdedBatches.mp hbatch
      obtain rfl := List.eq_of_mem_replicate hp
      have hover : 1 < cellTotal crowdedGrid 7 (crowdedBuilder.keyOf (crowdedPoint x y) 7) := by
        rw [keyOf_crowdedPoint hx hy]
        exact lt_of_lt_of_le (by norm_num) (cellTotal_crowded hx hy)
      obtain ⟨i, ch, -, -, -, hrouted⟩ := OctreeBuilder.exists_split_chunk crowdedBuilder
        (crowdedPoint x y) hover
      rw [← crowdedPlan_eq] at hrouted
      exact ⟨UInt32.ofNat i, hrouted, (UInt32.ofNat i).toNat_lt.trans_le hlen⟩)
  obtain ⟨schedule, crew, hrun, hdone⟩ := hready.exists_finish
  refine ⟨start, schedule, crew, hstart, hrun, hdone, crowdedPlan.chunks.length % 2 ^ 32, ?_, ?_⟩
  · exact (Nat.mod_lt _ (by norm_num)).trans_le hlen
  · have hwrap : UInt32.ofNat (crowdedPlan.chunks.length % 2 ^ 32) =
        UInt32.ofNat crowdedPlan.chunks.length := by
      apply UInt32.toNat_inj.mp
      rw [UInt32.toNat_ofNat', UInt32.toNat_ofNat', Nat.mod_mod]
    rw [hwrap, chunkFilesOf, mergeChunkShards_apply, if_neg (UInt32.lt_irrefl _)]

end CopcConverter
