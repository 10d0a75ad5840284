import CopcConverter.Chunking.ChunkLut
import CopcConverter.Foundations.Lists
import CopcConverter.Foundations.Workers
import CopcConverter.Storage.MergeChunkShards

/-!
# Distributing the points

`distribute` streams every input file and appends each point to a file of its chunk.  Some workers
run side by side, each with a slice of the input files, a writer cache and a shard directory of its
own; what they share are the counters of the chunks, which are raised whenever points are handed to
the writers.  When all workers are done the shards are merged, and the build trusts the counters.

A worker is a program of steps, computed from its files: for every batch the points are grouped by
chunk, and for every group, in any order, the counter is raised and the points are handed over; at
the end its writers are flushed.  `HandsOver` says of such a program that it hands over all points
of a chunk in their order, with the counters, and it is proved by induction over the batches.
-/

namespace CopcConverter

open Lists Workers Reader

variable {F : Type} [FloatArith F]

/-! ## The input files and the workers -/

/-- About two thirds of the cores, but not more workers than input files. -/
def chunkedDistributeWorkerCount (cores inputFileCount : ℕ) : ℕ :=
  max (min (max (cores * 2 / 3) 2) inputFileCount) 1

/-- How many points a worker reads at once. -/
def readChunkSize (memoryBudget numWorkers : ℕ) (numExtraBytes : UInt16) : ℕ :=
  let bytesPerPointTransient := 120 + 2 * numExtraBytes.toNat
  let perWorkerBudget := memoryBudget / numWorkers
  max 50000 (min 2000000 (perWorkerBudget / 8 / bytesPerPointTransient))

/-- An input file as it is read: batches of at most the size that is asked for, none of them empty,
of points that all have the extra bytes the header announces. -/
structure StreamedFile (readChunkSize : ℕ) (numExtraBytes : UInt16) where
  batches : List (List RawPoint)
  nonempty : ∀ batch ∈ batches, batch ≠ []
  size : ∀ batch ∈ batches, batch.length ≤ readChunkSize
  carries : ∀ batch ∈ batches, Carries numExtraBytes batch

/-- The points of a file. -/
def StreamedFile.points {readChunkSize : ℕ} {numExtraBytes : UInt16}
    (file : StreamedFile readChunkSize numExtraBytes) : List RawPoint := file.batches.flatten

/-- The number of files for each worker, rounded up. -/
def filesPerWorker (numFiles numWorkers : ℕ) : ℕ := (numFiles + numWorkers - 1) / numWorkers

/-- The index of the first file of a worker. -/
def workerStart (numFiles numWorkers workerId : ℕ) : ℕ :=
  workerId * filesPerWorker numFiles numWorkers

/-- The index after the last file of a worker. -/
def workerEnd (numFiles numWorkers workerId : ℕ) : ℕ :=
  min (workerStart numFiles numWorkers workerId + filesPerWorker numFiles numWorkers) numFiles

/-- The files that a worker streams; none when its range is empty. -/
def workerFiles {α : Type} (files : List α) (numWorkers workerId : ℕ) : List α :=
  let start := workerStart files.length numWorkers workerId
  let stop := workerEnd files.length numWorkers workerId
  if stop ≤ start then [] else (files.drop start).take (stop - start)

/-! ## The program of a worker -/

/-- What a worker does to the outside: raise the counter of a chunk, hand points to the writer of a
chunk, or flush all its writers at the end. -/
inductive WorkerStep where
  | tally (chunkIdx : UInt32) (n : ℕ)
  | append (chunkIdx : UInt32) (points : List RawPoint)
  | flushAll (workerId : ℕ)

namespace WorkerStep

/-- The effect on the counters; raising one that does not exist panics. -/
def onCounts : WorkerStep → List UInt64 → Option (List UInt64)
  | .tally chunkIdx n, counts =>
    if chunkIdx.toNat < counts.length then
      some (counts.modify chunkIdx.toNat (· + UInt64.ofNat n))
    else none
  | .append _ _, counts => some counts
  | .flushAll _, counts => some counts

/-- The effect on the shard of the worker. -/
def onShard (lz4 : FrameCodec) (pieces : BufWriter.Pieces) (o : IterOrder) :
    WorkerStep → ShardState → Option ShardState
  | .tally _ _, shard => some shard
  | .append chunkIdx points, shard => shard.append lz4 pieces chunkIdx points
  | .flushAll workerId, shard => some (shard.flushAll (o.sub workerId))

end WorkerStep

/-- Hand over the groups of a batch, in any order. -/
def drainSteps (o : IterOrder) (groups : BucketMap UInt32 RawPoint) : List WorkerStep :=
  (o.list groups.pairs).flatMap fun g => [.tally g.1 g.2.length, .append g.1 g.2]

namespace OctreeBuilder

variable (b : OctreeBuilder F)

/-- Group the points of a batch by their chunk. -/
def groupPoints (plan : ChunkPlan) (lut : ChunkLut) (batch : List RawPoint) :
    Option (BucketMap UInt32 RawPoint) :=
  batch.foldlM (fun groups p => (b.chunkIndexOf plan lut p).map fun chunkIdx =>
    BucketMap.push groups chunkIdx p) ∅

/-- The steps of a worker: batch after batch of file after file, and a flush at the end. -/
def workerSteps {readChunkSize : ℕ} {numExtraBytes : UInt16} (o : IterOrder) (plan : ChunkPlan)
    (lut : ChunkLut) (workerId : ℕ) (files : List (StreamedFile readChunkSize numExtraBytes)) :
    Option (List WorkerStep) :=
  if files.isEmpty then some []
  else ((files.flatMap StreamedFile.batches).zipIdx.mapM fun e =>
    (b.groupPoints plan lut e.1).map (drainSteps (o.sub e.2))).map fun steps =>
      steps.flatten ++ [.flushAll workerId]

/-- All workers before their first step, and the counters at zero. -/
def distributeStart {readChunkSize : ℕ} (o : IterOrder) (plan : ChunkPlan)
    (perWorkerCap : ℕ) (codec : TempCompression) (numWorkers : ℕ)
    (files : List (StreamedFile readChunkSize b.numExtraBytes)) :
    Option (Crew WorkerStep (List UInt64) ShardState) :=
  ((List.range numWorkers).mapM fun workerId =>
    b.workerSteps (o.sub workerId) plan (buildChunkLut plan) workerId
      (workerFiles files numWorkers workerId)).map fun programs =>
    { shared := List.replicate plan.chunks.length 0
      workers := programs.map fun todo =>
        ⟨todo, ShardState.start perWorkerCap b.numExtraBytes codec⟩ }

end OctreeBuilder

/-- The canonical chunk files once the shards of all workers are merged. -/
def chunkFilesOf (o : IterOrder) (plan : ChunkPlan)
    (crew : Crew WorkerStep (List UInt64) ShardState) : ShardFiles :=
  mergeChunkShards o (UInt32.ofNat plan.chunks.length) (crew.workers.map fun w => w.own.files)

/-! ## Every file has one worker -/

lemma workerFiles_eq {α : Type} (files : List α) (numWorkers workerId : ℕ) :
    workerFiles files numWorkers workerId =
      (files.drop (workerStart files.length numWorkers workerId)).take
        (filesPerWorker files.length numWorkers) := by
  unfold workerFiles workerEnd
  simp only
  split_ifs with h
  · rcases min_le_iff.mp h with hzero | hend
    · rw [show filesPerWorker files.length numWorkers = 0 by omega, List.take_zero]
    · rw [List.drop_eq_nil_of_le hend, List.take_nil]
  · apply (List.take_eq_take_iff).mpr
    rw [List.length_drop]
    omega

/-- The slices of the workers make up the list of files. -/
lemma flatMap_workerFiles {α : Type} (files : List α) {numWorkers : ℕ} (hpos : 0 < numWorkers) :
    (List.range numWorkers).flatMap (workerFiles files numWorkers) = files := by
  set c := filesPerWorker files.length numWorkers with hc
  have hfirst : ∀ m, (List.range m).flatMap (workerFiles files numWorkers) =
      files.take (m * c) := by
    intro m
    induction m with
    | zero => rw [Nat.zero_mul, List.take_zero, List.range_zero, List.flatMap_nil]
    | succ m ih =>
      rw [List.range_succ, List.flatMap_append, ih, List.flatMap_singleton, workerFiles_eq,
        workerStart, ← hc, Nat.succ_mul, List.take_add]
  rw [hfirst]
  apply List.take_of_length_le
  have hceil := Nat.lt_mul_div_succ (files.length + numWorkers - 1) hpos
  rw [hc, filesPerWorker]
  rw [Nat.mul_add, Nat.mul_one] at hceil
  omega

/-- Every file is in the range of exactly one worker. -/
lemma existsUnique_worker {numFiles numWorkers i : ℕ} (hpos : 0 < numWorkers) (hi : i < numFiles) :
    ∃! w, w < numWorkers ∧ workerStart numFiles numWorkers w ≤ i ∧
      i < workerEnd numFiles numWorkers w := by
  set c := filesPerWorker numFiles numWorkers with hc
  have hceil := Nat.lt_mul_div_succ (numFiles + numWorkers - 1) hpos
  rw [← filesPerWorker, ← hc, Nat.mul_add, Nat.mul_one] at hceil
  have hcpos : 0 < c := by
    refine Nat.pos_of_ne_zero fun h0 => ?_
    rw [h0, Nat.mul_zero] at hceil
    omega
  have hrange : ∀ w, (workerStart numFiles numWorkers w ≤ i ∧
      i < workerEnd numFiles numWorkers w) ↔ i / c = w := by
    intro w
    unfold workerEnd workerStart
    rw [← hc, Nat.div_eq_iff hcpos]
    have hcomm := Nat.mul_comm w c
    omega
  refine ⟨i / c, ⟨?_, (hrange _).mpr rfl⟩, fun w hw => ((hrange w).mp hw.2).symm⟩
  rw [Nat.div_lt_iff_lt_mul hcpos]
  omega

/-! ## What the steps of a worker hand over -/

/-- The points that are handed to the writers, call by call. -/
def callsOf (steps : List WorkerStep) : List (UInt32 × List RawPoint) :=
  steps.filterMap fun
    | .append chunkIdx points => some (chunkIdx, points)
    | _ => none

/-- How much a step adds to the counter of a chunk. -/
def tallyOf (k : UInt32) : WorkerStep → ℕ
  | .tally chunkIdx n => if chunkIdx = k then n else 0
  | _ => 0

lemma batchesFor_append (k : UInt32) (l l' : List (UInt32 × List RawPoint)) :
    batchesFor k (l ++ l') = batchesFor k l ++ batchesFor k l' := by
  rw [batchesFor, List.filter_append, List.map_append, batchesFor, batchesFor]

/-- A chunk without a call has no batches. -/
lemma batchesFor_eq_nil {k : UInt32} {l : List (UInt32 × List RawPoint)}
    (h : k ∉ l.map Prod.fst) : batchesFor k l = [] := by
  rw [batchesFor, List.map_eq_nil_iff, List.filter_eq_nil_iff]
  intro c hc hk
  exact h (List.mem_map.mpr ⟨c, hc, (of_decide_eq_true hk).1⟩)

/-- When every chunk has one call at most, its batches are the points of this call. -/
lemma flatten_fileBatchesFor {k : UInt32} {l : List (UInt32 × List RawPoint)}
    (h : (l.map Prod.fst).Nodup) {points : List RawPoint} (hk : (k, points) ∈ l) :
    (batchesFor k l).flatten = points := by
  obtain ⟨front, back, rfl⟩ := List.append_of_mem hk
  rw [List.map_append, List.map_cons, List.nodup_middle, List.nodup_cons, List.mem_append,
    not_or] at h
  rw [batchesFor_append, batchesFor_eq_nil h.1.1, List.nil_append, batchesFor, List.filter_cons]
  have hback := batchesFor_eq_nil h.1.2
  rw [batchesFor] at hback
  split_ifs with hne
  · rw [List.map_cons, hback, List.flatten_singleton]
  · rw [hback, List.flatten_nil]
    simpa using hne

/-- The counters are raised by as many points as are handed over. -/
lemma sum_tallyOf_drain (k : UInt32) (l : List (UInt32 × List RawPoint)) :
    ((l.flatMap fun g => [WorkerStep.tally g.1 g.2.length, .append g.1 g.2]).map
      (tallyOf k)).sum = (batchesFor k l).flatten.length := by
  induction l with
  | nil => rfl
  | cons g l ih =>
    have hone : ([WorkerStep.tally g.1 g.2.length, .append g.1 g.2].map (tallyOf k)).sum =
        (batchesFor k [g]).flatten.length := by
      by_cases hk : g.1 = k
      · by_cases hnil : g.2 = []
        · simp [tallyOf, batchesFor, hk, hnil]
        · simp [tallyOf, batchesFor, hk, hnil]
      · simp [tallyOf, batchesFor, hk]
    have hcons : batchesFor k (g :: l) = batchesFor k [g] ++ batchesFor k l :=
      batchesFor_append k [g] l
    rw [List.flatMap_cons, List.map_append, List.sum_append, ih, hone, hcons, List.flatten_append,
      List.length_append]

lemma callsOf_append (steps steps' : List WorkerStep) :
    callsOf (steps ++ steps') = callsOf steps ++ callsOf steps' :=
  List.filterMap_append

lemma callsOf_drain (l : List (UInt32 × List RawPoint)) :
    callsOf (l.flatMap fun g => [.tally g.1 g.2.length, .append g.1 g.2]) = l := by
  induction l with
  | nil => rfl
  | cons g l ih =>
    rw [List.flatMap_cons, callsOf_append, ih]
    rfl

/-- Steps that hand over the points of some batches: all points of a chunk in their order, in parts
of the batches, and the counters with them. -/
structure HandsOver (b : OctreeBuilder F) (plan : ChunkPlan) (lut : ChunkLut)
    (batches : List (List RawPoint)) (steps : List WorkerStep) : Prop where
  points : ∀ k, (batchesFor k (callsOf steps)).flatten =
    batches.flatten.filter fun p => b.chunkIndexOf plan lut p = some k
  tallied : ∀ k, (steps.map (tallyOf k)).sum = (batchesFor k (callsOf steps)).flatten.length
  part : ∀ c ∈ callsOf steps, ∃ batch ∈ batches, c.2.Sublist batch
  counters : ∀ i n, WorkerStep.tally i n ∈ steps →
    ∃ p ∈ batches.flatten, b.chunkIndexOf plan lut p = some i
  unflushed : ∀ w, WorkerStep.flushAll w ∉ steps

section Steps

variable {b : OctreeBuilder F} {plan : ChunkPlan} {lut : ChunkLut}

lemma HandsOver.nil : HandsOver b plan lut [] [] where
  points _ := rfl
  tallied _ := rfl
  part _ hc := absurd hc List.not_mem_nil
  counters _ _ h := absurd h List.not_mem_nil
  unflushed _ h := absurd h List.not_mem_nil

lemma HandsOver.append {batches batches' : List (List RawPoint)} {steps steps' : List WorkerStep}
    (h : HandsOver b plan lut batches steps) (h' : HandsOver b plan lut batches' steps') :
    HandsOver b plan lut (batches ++ batches') (steps ++ steps') where
  points k := by
    rw [callsOf_append, batchesFor_append, List.flatten_append, List.flatten_append,
      List.filter_append, h.points, h'.points]
  tallied k := by
    rw [callsOf_append, batchesFor_append, List.flatten_append, List.length_append,
      List.map_append, List.sum_append, h.tallied, h'.tallied]
  part c hc := by
    rw [callsOf_append, List.mem_append] at hc
    rcases hc with hc | hc
    · obtain ⟨batch, hbatch, hsub⟩ := h.part c hc
      exact ⟨batch, List.mem_append_left _ hbatch, hsub⟩
    · obtain ⟨batch, hbatch, hsub⟩ := h'.part c hc
      exact ⟨batch, List.mem_append_right _ hbatch, hsub⟩
  counters i n hmem := by
    rw [List.flatten_append]
    rcases List.mem_append.mp hmem with hmem | hmem
    · obtain ⟨p, hp, hi⟩ := h.counters i n hmem
      exact ⟨p, List.mem_append_left _ hp, hi⟩
    · obtain ⟨p, hp, hi⟩ := h'.counters i n hmem
      exact ⟨p, List.mem_append_right _ hp, hi⟩
  unflushed w hmem := (List.mem_append.mp hmem).elim (h.unflushed w) (h'.unflushed w)

/-- The groups of a batch. -/
lemma groupPoints_spec {batch : List RawPoint} {groups : BucketMap UInt32 RawPoint}
    (h : b.groupPoints plan lut batch = some groups) : groups.Tight ∧
      ∀ k, groups.get k = batch.filter fun p => b.chunkIndexOf plan lut p = some k := by
  have hfrom : ∀ start : BucketMap UInt32 RawPoint, start.Tight →
      batch.foldlM (fun groups p => (b.chunkIndexOf plan lut p).map fun chunkIdx =>
        BucketMap.push groups chunkIdx p) start = some groups →
      groups.Tight ∧ ∀ k, groups.get k = start.get k ++
        batch.filter fun p => b.chunkIndexOf plan lut p = some k := by
    clear h
    induction batch with
    | nil =>
      intro start htight h
      obtain rfl := Option.some.inj h
      exact ⟨htight, fun k => (List.append_nil _).symm⟩
    | cons p batch ih =>
      intro start htight h
      rw [List.foldlM_cons] at h
      obtain ⟨mid, hmid, hrest⟩ := Option.bind_eq_some_iff.mp h
      obtain ⟨i, hi, rfl⟩ := Option.map_eq_some_iff.mp hmid
      have hpush : (start.push i p).Tight := htight.pushAll (fun _ => i) [p]
      obtain ⟨htight', hget⟩ := ih _ hpush hrest
      refine ⟨htight', fun k => ?_⟩
      rw [hget, List.filter_cons, hi, BucketMap.get_push]
      by_cases hk : k = i
      · simp [hk]
      · simp [hk, Ne.symm hk]
  obtain ⟨htight, hget⟩ := hfrom ∅ BucketMap.Tight.empty h
  exact ⟨htight, fun k => (hget k).trans (by rw [BucketMap.get_empty, List.nil_append])⟩

/-- Draining the groups of a batch hands over the batch. -/
lemma HandsOver.drain (o : IterOrder) {batch : List RawPoint}
    {groups : BucketMap UInt32 RawPoint} (h : b.groupPoints plan lut batch = some groups) :
    HandsOver b plan lut [batch] (drainSteps o groups) := by
  obtain ⟨htight, hget⟩ := groupPoints_spec h
  have hcalls : callsOf (drainSteps o groups) = o.list groups.pairs := callsOf_drain _
  have hkeys : ((o.list groups.pairs).map Prod.fst).Nodup := by
    rw [((o.list_perm _).map Prod.fst).nodup_iff, BucketMap.map_fst_pairs]
    exact groups.nodupKeys
  have hbucket : ∀ c ∈ o.list groups.pairs,
      c.2 = batch.filter fun p => b.chunkIndexOf plan lut p = some c.1 := by
    intro c hc
    rw [← hget, (BucketMap.mem_pairs.mp (IterOrder.mem_list.mp hc)).2]
  refine ⟨fun k => ?_, fun k => ?_, fun c hc => ?_, fun i n hmem => ?_, fun w hmem => ?_⟩
  · rw [hcalls, List.flatten_singleton, ← hget]
    by_cases hk : k ∈ groups
    · exact flatten_fileBatchesFor hkeys
        (IterOrder.mem_list.mpr (BucketMap.mem_pairs.mpr ⟨hk, rfl⟩))
    · rw [BucketMap.get_eq_nil_of_notMem hk, batchesFor_eq_nil, List.flatten_nil]
      rw [((o.list_perm _).map Prod.fst).mem_iff, BucketMap.map_fst_pairs]
      exact hk
  · rw [hcalls]
    exact sum_tallyOf_drain k _
  · rw [hcalls] at hc
    refine ⟨batch, List.mem_singleton_self batch, ?_⟩
    rw [hbucket c hc]
    exact List.filter_sublist
  · obtain ⟨c, hc, hstep⟩ := List.mem_flatMap.mp hmem
    obtain ⟨rfl, rfl⟩ : i = c.1 ∧ n = c.2.length := by simpa using hstep
    have hne : c.2 ≠ [] := by
      have hpair := BucketMap.mem_pairs.mp (IterOrder.mem_list.mp hc)
      rw [← hpair.2]
      exact htight _ hpair.1
    obtain ⟨p, hp⟩ := List.exists_mem_of_ne_nil _ hne
    rw [hbucket c hc, List.mem_filter] at hp
    rw [List.flatten_singleton]
    exact ⟨p, hp.1, of_decide_eq_true hp.2⟩
  · obtain ⟨c, -, hstep⟩ := List.mem_flatMap.mp hmem
    simp at hstep

/-- Draining batch after batch. -/
lemma HandsOver.flatten {o : IterOrder} {l : List (List RawPoint × ℕ)}
    {steps : List (List WorkerStep)}
    (h : List.Forall₂ (fun e s => (b.groupPoints plan lut e.1).map (drainSteps (o.sub e.2)) =
      some s) l steps) : HandsOver b plan lut (l.map Prod.fst) steps.flatten := by
  induction h with
  | nil => exact HandsOver.nil
  | cons hs _ ih =>
    obtain ⟨groups, hgroups, rfl⟩ := Option.map_eq_some_iff.mp hs
    exact (HandsOver.drain _ hgroups).append ih

/-- A worker hands over its files and flushes; one without files does nothing. -/
lemma workerSteps_spec {size : ℕ} {numExtraBytes : UInt16} {o : IterOrder} {workerId : ℕ}
    {files : List (StreamedFile size numExtraBytes)} {steps : List WorkerStep}
    (h : b.workerSteps o plan lut workerId files = some steps) :
    ∃ body, HandsOver b plan lut (files.flatMap StreamedFile.batches) body ∧
      (steps = body ++ [.flushAll workerId] ∨ steps = [] ∧ body = []) := by
  unfold OctreeBuilder.workerSteps at h
  split_ifs at h with hnil
  · obtain rfl := Option.some.inj h
    rw [List.isEmpty_iff] at hnil
    subst hnil
    exact ⟨[], HandsOver.nil, Or.inr ⟨rfl, rfl⟩⟩
  · obtain ⟨parts, hparts, rfl⟩ := Option.map_eq_some_iff.mp h
    have hover := HandsOver.flatten (forall₂_of_mapM hparts)
    rw [List.zipIdx_map_fst] at hover
    exact ⟨parts.flatten, hover, Or.inl rfl⟩

/-! ## The shard of a worker -/

variable {lz4 : FrameCodec} {pieces : BufWriter.Pieces} {codec : TempCompression}

/-- Handing over points is appending them through the writer cache. -/
lemma foldlM_onShard {o : IterOrder} {steps : List WorkerStep}
    (h : ∀ w, WorkerStep.flushAll w ∉ steps) (st : ShardState) :
    steps.foldlM (fun st x => x.onShard lz4 pieces o st) st =
      st.appendAll lz4 pieces (callsOf steps) := by
  induction steps generalizing st with
  | nil => rfl
  | cons x steps ih =>
    have hrest := ih fun w hw => h w (List.mem_cons_of_mem _ hw)
    cases x with
    | tally i n => exact hrest st
    | append i points =>
      have hcalls : callsOf (.append i points :: steps) = (i, points) :: callsOf steps := rfl
      rw [hcalls, ShardState.appendAll, List.foldlM_cons, List.foldlM_cons]
      exact congrArg _ (funext hrest)
    | flushAll w => exact absurd List.mem_cons_self (h w)

/-- The shard file of a chunk holds the points of the chunk, in order and in batches that can be
read back; a chunk without points has no file. -/
def ShardHolds (b : OctreeBuilder F) (plan : ChunkPlan) (lut : ChunkLut) (lz4 : FrameCodec)
    (codec : TempCompression) (points : List RawPoint) (files : ShardFiles) : Prop :=
  ∀ k, ∃ batches : List (List RawPoint),
    (∀ batch ∈ batches, batch.length < 2 ^ 32 ∧ Carries b.numExtraBytes batch) ∧
    batches.flatten = points.filter (fun p => b.chunkIndexOf plan lut p = some k) ∧
    files k = if batches = [] then none else some (fileBytes lz4 codec batches)

lemma flatten_fileBatches {size : ℕ} {numExtraBytes : UInt16}
    (files : List (StreamedFile size numExtraBytes)) :
    (files.flatMap StreamedFile.batches).flatten = files.flatMap StreamedFile.points := by
  rw [List.flatMap_def, List.flatMap_def, List.flatten_flatten, List.map_map]
  rfl

/-- What a worker leaves in its shard directory. -/
lemma shardHolds_of_run {size : ℕ} (hsize : size < 2 ^ 32) {o o' : IterOrder} {workerId cap : ℕ}
    {files : List (StreamedFile size b.numExtraBytes)} {steps : List WorkerStep}
    (h : b.workerSteps o plan lut workerId files = some steps) {st : ShardState}
    (hrun : steps.foldlM (fun st x => x.onShard lz4 pieces o' st)
      (ShardState.start cap b.numExtraBytes codec) = some st) :
    ShardHolds b plan lut lz4 codec (files.flatMap StreamedFile.points) st.files := by
  obtain ⟨body, hover, hsteps⟩ := workerSteps_spec h
  have hparts : ∀ c ∈ callsOf body, c.2.length < 2 ^ 32 ∧ Carries b.numExtraBytes c.2 := by
    intro c hc
    obtain ⟨batch, hbatch, hsub⟩ := hover.part c hc
    obtain ⟨file, -, hmem⟩ := List.mem_flatMap.mp hbatch
    refine ⟨(hsub.length_le.trans (file.size batch hmem)).trans_lt hsize, fun p hp => ?_⟩
    exact file.carries batch hmem p (hsub.subset hp)
  intro k
  have hbatches : ∀ batch ∈ batchesFor k (callsOf body),
      batch.length < 2 ^ 32 ∧ Carries b.numExtraBytes batch := by
    intro batch hbatch
    obtain ⟨c, hc, rfl⟩ := List.mem_map.mp hbatch
    exact hparts c (List.mem_filter.mp hc).1
  refine ⟨batchesFor k (callsOf body), hbatches, ?_, ?_⟩
  · rw [hover.points, flatten_fileBatches]
  · rcases hsteps with rfl | ⟨rfl, rfl⟩
    · rw [List.foldlM_append] at hrun
      obtain ⟨mid, hmid, hflush⟩ := Option.bind_eq_some_iff.mp hrun
      rw [foldlM_onShard hover.unflushed] at hmid
      obtain ⟨bytes, hbytes, hcontents⟩ := (Holds.appendAll _ hmid).contents k
      rw [writeBatches_eq lz4 codec fun batch hbatch => (hbatches batch hbatch).2] at hbytes
      obtain rfl := Option.some.inj hbytes
      obtain rfl : mid.flushAll (o'.sub workerId) = st := Option.some.inj hflush
      exact (files_flushAll _ mid k).trans hcontents
    · obtain rfl := Option.some.inj hrun
      rfl

end Steps

/-! ## The counters -/

/-- The counters after some steps, in any order. -/
lemma foldlM_onCounts {trace : List WorkerStep} {counts counts' : List UInt64}
    (h : trace.foldlM (fun counts x => x.onCounts counts) counts = some counts') :
    counts'.length = counts.length ∧ ∀ k : UInt32, counts'[k.toNat]? =
      counts[k.toNat]?.map (· + UInt64.ofNat (trace.map (tallyOf k)).sum) := by
  induction trace generalizing counts with
  | nil =>
    obtain rfl := Option.some.inj h
    refine ⟨rfl, fun k => ?_⟩
    cases counts[k.toNat]? with
    | none => rfl
    | some n => simp
  | cons x trace ih =>
    rw [List.foldlM_cons] at h
    obtain ⟨mid, hmid, hrest⟩ := Option.bind_eq_some_iff.mp h
    obtain ⟨hlen, hget⟩ := ih hrest
    cases x with
    | tally i n =>
      change (if i.toNat < counts.length then _ else none) = some mid at hmid
      split_ifs at hmid
      obtain rfl := Option.some.inj hmid
      refine ⟨hlen.trans (List.length_modify _ _ _), fun k => ?_⟩
      rw [hget, List.getElem?_modify, List.map_cons, List.sum_cons, UInt64.ofNat_add]
      by_cases hk : i = k
      · subst hk
        simp [tallyOf, UInt64.add_assoc, Function.comp_def]
      · have hne : i.toNat ≠ k.toNat := fun he => hk (UInt32.toNat_inj.mp he)
        simp [tallyOf, hk, hne]
    | append i points =>
      obtain rfl := Option.some.inj hmid
      refine ⟨hlen, fun k => (hget k).trans ?_⟩
      simp [tallyOf]
    | flushAll w =>
      obtain rfl := Option.some.inj hmid
      refine ⟨hlen, fun k => (hget k).trans ?_⟩
      simp [tallyOf]

/-- The counters are raised by the number of points a worker has for a chunk. -/
lemma sum_tallyOf_worker {b : OctreeBuilder F} {plan : ChunkPlan} {lut : ChunkLut} {size : ℕ}
    {numExtraBytes : UInt16} {o : IterOrder} {workerId : ℕ}
    {files : List (StreamedFile size numExtraBytes)} {steps : List WorkerStep}
    (h : b.workerSteps o plan lut workerId files = some steps) (k : UInt32) :
    (steps.map (tallyOf k)).sum = ((files.flatMap StreamedFile.points).filter
      fun p => b.chunkIndexOf plan lut p = some k).length := by
  obtain ⟨body, hover, hsteps⟩ := workerSteps_spec h
  have hbody : (steps.map (tallyOf k)).sum = (body.map (tallyOf k)).sum := by
    rcases hsteps with rfl | ⟨rfl, rfl⟩
    · simp [tallyOf]
    · rfl
  rw [hbody, hover.tallied, hover.points, flatten_fileBatches]

/-- The counters are raised by the number of points all workers have for a chunk. -/
lemma sum_tallyOf_workers {b : OctreeBuilder F} {plan : ChunkPlan} {lut : ChunkLut} {size : ℕ}
    {numExtraBytes : UInt16} {o : IterOrder} {slice : ℕ → List (StreamedFile size numExtraBytes)}
    {ws : List ℕ} {programs : List (List WorkerStep)}
    (h : List.Forall₂ (fun w steps => b.workerSteps (o.sub w) plan lut w (slice w) = some steps) ws
      programs) (k : UInt32) :
    (programs.flatten.map (tallyOf k)).sum =
      (((ws.flatMap slice).flatMap StreamedFile.points).filter
      fun p => b.chunkIndexOf plan lut p = some k).length := by
  induction h with
  | nil => rfl
  | cons hsteps _ ih =>
    rw [List.flatten_cons, List.map_append, List.sum_append, List.flatMap_cons,
      List.flatMap_append, List.filter_append, List.length_append, ih, sum_tallyOf_worker hsteps]

end CopcConverter
