import CopcConverter.Foundations.BufWriter
import CopcConverter.Foundations.IterOrder
import CopcConverter.Storage.TempBatches

/-!
# The cache of chunk writers

Points go to one file for each chunk, through buffered writers of which only a bounded number is
open, since there may be more chunks than file handles.  A queue keeps the keys of the open writers
in the order of their last use; when there is no room for another one, the least recently used
writers are flushed and closed, and a chunk that is written to again is opened again at the end of
its file.

`InStep` is the invariant of the cache: the queue lists exactly the open writers, each once, from
the least to the most recently used, and there are no more than allowed.  Between any two calls it
holds, every call succeeds, and once all writers are flushed the file of a chunk holds the batches
for the chunk in the order of the calls, however often its writer was closed in between.
-/

namespace CopcConverter

open BufWriter

/-! ## The cache -/

/-- The files of the chunks that have one. -/
abbrev ShardFiles : Type := UInt32 → Option (List UInt8)

/-- Open writers, each with the bytes it holds back, and the queue of their keys, least recently
used first. -/
structure ChunkWriterCache where
  writers : AList fun _ : UInt32 => List UInt8
  order : List UInt32
  capacity : ℕ
  numExtraBytes : UInt16
  codec : TempCompression

namespace ChunkWriterCache

/-- A cache without open writers. -/
def new (capacity : ℕ) (numExtraBytes : UInt16) (codec : TempCompression) : ChunkWriterCache :=
  ⟨∅, [], capacity, numExtraBytes, codec⟩

end ChunkWriterCache

/-- Bytes arrive at the end of a file. -/
def appendTo (files : ShardFiles) (chunkIdx : UInt32) (bytes : List UInt8) : ShardFiles :=
  Function.update files chunkIdx ((files chunkIdx).map (· ++ bytes))

/-- Open a file for appending; a missing one is created. -/
def openAppend (files : ShardFiles) (chunkIdx : UInt32) : ShardFiles :=
  Function.update files chunkIdx (some ((files chunkIdx).getD []))

/-- The queue, the open writers and the files, as the loops change them. -/
structure Evicted where
  order : List UInt32
  writers : AList fun _ : UInt32 => List UInt8
  files : ShardFiles

/-- Flush and close the least recently used writers until one more has room. -/
def evictLoop (capacity : ℕ) :
    List UInt32 → (AList fun _ : UInt32 => List UInt8) → ShardFiles → Evicted
  | [], writers, files => ⟨[], writers, files⟩
  | victim :: order, writers, files =>
    if capacity ≤ writers.keys.length then
      evictLoop capacity order (writers.erase victim)
        ((writers.lookup victim).elim files (appendTo files victim))
    else ⟨victim :: order, writers, files⟩

/-- A cache and the files it writes to. -/
structure ShardState where
  cache : ChunkWriterCache
  files : ShardFiles

/-- The capacity of a buffered writer. -/
def bufWriterCapacity : ℕ := 8192

namespace ShardState

/-- Make sure that the writer of a chunk is open and the last in the queue. -/
def touch (st : ShardState) (chunkIdx : UInt32) : ShardState :=
  if chunkIdx ∈ st.cache.writers then
    { st with cache :=
        { st.cache with order := st.cache.order.erase chunkIdx ++ [chunkIdx] } }
  else
    let e := evictLoop st.cache.capacity st.cache.order st.cache.writers st.files
    { cache :=
        { st.cache with
          writers := e.writers.insert chunkIdx []
          order := e.order ++ [chunkIdx] }
      files := openAppend e.files chunkIdx }

/-- Hand bytes to the writer of a chunk. -/
def write (st : ShardState) (pieces : Pieces) (chunkIdx : UInt32) (bytes : List UInt8) :
    ShardState :=
  let w := writePieces bufWriterCapacity ((st.cache.writers.lookup chunkIdx).getD [])
    (pieces.cut bytes)
  { cache := { st.cache with writers := st.cache.writers.insert chunkIdx w.2 }
    files := appendTo st.files chunkIdx w.1 }

/-- Append points to the file of a chunk; no points, no effect. -/
def append (lz4 : FrameCodec) (pieces : Pieces) (st : ShardState) (chunkIdx : UInt32)
    (points : List RawPoint) : Option ShardState :=
  if points = [] then some st
  else
    (writeTempBatch lz4 st.cache.codec st.cache.numExtraBytes points).map
      ((st.touch chunkIdx).write pieces chunkIdx)

/-- Flush and close all writers, in any order. -/
def flushAll (o : IterOrder) (st : ShardState) : ShardState where
  cache := { st.cache with writers := ∅, order := [] }
  files := (o.list st.cache.writers.entries).foldl (fun files w => appendTo files w.1 w.2) st.files

/-- Append one batch of points after the other. -/
def appendAll (lz4 : FrameCodec) (pieces : Pieces) (st : ShardState)
    (calls : List (UInt32 × List RawPoint)) : Option ShardState :=
  calls.foldlM (fun st call => st.append lz4 pieces call.1 call.2) st

end ShardState

/-! ## What a file holds once its writer is flushed -/

/-- The bytes of a file and those that its writer holds back. -/
def contentsOf (writers : AList fun _ : UInt32 => List UInt8) (files : ShardFiles)
    (k : UInt32) : Option (List UInt8) :=
  (files k).map (· ++ (writers.lookup k).getD [])

lemma appendTo_apply (files : ShardFiles) (i k : UInt32) (bytes : List UInt8) :
    appendTo files i bytes k = if k = i then (files k).map (· ++ bytes) else files k := by
  rw [appendTo, Function.update_apply]
  split_ifs with h
  · rw [h]
  · rfl

/-- Flushing and closing a writer. -/
lemma contentsOf_close (writers : AList fun _ : UInt32 => List UInt8) (files : ShardFiles)
    (victim k : UInt32) :
    contentsOf (writers.erase victim) ((writers.lookup victim).elim files (appendTo files victim))
      k = contentsOf writers files k := by
  rw [contentsOf, contentsOf]
  by_cases hk : k = victim
  · subst hk
    rw [AList.lookup_erase]
    cases writers.lookup k with
    | none => rfl
    | some pending =>
      rw [Option.elim_some, appendTo_apply, if_pos rfl, Option.map_map, Option.getD_some]
      congr 1
      funext bytes
      exact List.append_nil _
  · rw [AList.lookup_erase_ne hk]
    cases writers.lookup victim with
    | none => rfl
    | some pending => rw [Option.elim_some, appendTo_apply, if_neg hk]

/-- Flushing writers one after the other. -/
lemma foldl_appendTo {l : List (Sigma fun _ : UInt32 => List UInt8)} (hl : l.NodupKeys)
    (files : ShardFiles) (k : UInt32) :
    (l.foldl (fun files w => appendTo files w.1 w.2) files) k =
      (files k).map (· ++ (l.dlookup k).getD []) := by
  induction l generalizing files with
  | nil =>
    rw [List.foldl_nil, List.dlookup_nil]
    cases files k with
    | none => rfl
    | some bytes => exact congrArg some (List.append_nil bytes).symm
  | cons w l ih =>
    rw [List.foldl_cons, ih (List.nodupKeys_cons.mp hl).2, appendTo_apply]
    split_ifs with hk
    · subst hk
      have hnone : l.dlookup w.1 = none :=
        List.dlookup_eq_none.mpr (List.notMem_keys_of_nodupKeys_cons hl)
      rw [hnone, List.dlookup_cons_eq, Option.map_map]
      congr 1
      funext bytes
      exact List.append_nil _
    · rw [List.dlookup_cons_ne _ _ hk]

/-- Flushing all writers leaves the contents in the files. -/
lemma files_flushAll (o : IterOrder) (st : ShardState) (k : UInt32) :
    (st.flushAll o).files k = contentsOf st.cache.writers st.files k := by
  have hperm := o.list_perm st.cache.writers.entries
  have hnodup : (o.list st.cache.writers.entries).NodupKeys :=
    (List.perm_nodupKeys hperm).mpr st.cache.writers.nodupKeys
  apply (foldl_appendTo hnodup st.files k).trans
  rw [List.perm_dlookup k hnodup hperm]
  rfl

/-! ## Queue and writers stay in step -/

/-- How many keys in a row have been used since the last use of a key. -/
def since (uses : List UInt32) (k : UInt32) : ℕ := uses.reverse.idxOf k

lemma since_concat (uses : List UInt32) (i k : UInt32) :
    since (uses ++ [i]) k = if k = i then 0 else since uses k + 1 := by
  rw [since, List.reverse_append, List.reverse_singleton, List.singleton_append,
    List.idxOf_cons]
  by_cases h : k = i
  · rw [if_pos h, h, beq_self_eq_true, cond_true]
  · rw [if_neg h, beq_false_of_ne (Ne.symm h), cond_false, since]

/-- The queue lists the keys of the open writers, each once, from the least to the most recently
used, and no more writers are open than allowed. -/
structure InStep (uses : List UInt32) (capacity : ℕ) (order : List UInt32)
    (writers : AList fun _ : UInt32 => List UInt8) : Prop where
  nodup : order.Nodup
  perm : order.Perm writers.keys
  used : ∀ k ∈ order, k ∈ uses
  recent : order.Pairwise fun j k => since uses k < since uses j
  bound : writers.keys.length ≤ max capacity 1

lemma InStep.empty (capacity : ℕ) : InStep [] capacity [] ∅ :=
  ⟨List.nodup_nil, List.Perm.refl _, fun _ h => absurd h List.not_mem_nil, List.Pairwise.nil,
    Nat.zero_le _⟩

/-- Using a key puts it last, wherever the other keys come from. -/
lemma recent_concat {uses order : List UInt32} {i : UInt32} (hi : i ∉ order)
    (h : order.Pairwise fun j k => since uses k < since uses j) :
    (order ++ [i]).Pairwise fun j k => since (uses ++ [i]) k < since (uses ++ [i]) j := by
  rw [List.pairwise_append]
  refine ⟨h.imp_of_mem ?_, List.pairwise_singleton _ _, ?_⟩
  · intro j k hj hk hlt
    have hji : j ≠ i := fun heq => hi (heq ▸ hj)
    have hki : k ≠ i := fun heq => hi (heq ▸ hk)
    rw [since_concat, since_concat, if_neg hji, if_neg hki]
    exact Nat.succ_lt_succ hlt
  · intro j hj k hk
    obtain rfl := List.mem_singleton.mp hk
    have hjk : j ≠ k := fun heq => hi (heq ▸ hj)
    rw [since_concat, since_concat, if_pos rfl, if_neg hjk]
    exact Nat.succ_pos _

/-- A key that is used goes behind a part of the queue. -/
lemma InStep.concat {uses order order' : List UInt32} {capacity : ℕ}
    {writers writers' : AList fun _ : UInt32 => List UInt8} {i : UInt32}
    (h : InStep uses capacity order writers) (hsub : order'.Sublist order) (hi : i ∉ order')
    (hperm : (i :: order').Perm writers'.keys)
    (hbound : writers'.keys.length ≤ max capacity 1) :
    InStep (uses ++ [i]) capacity (order' ++ [i]) writers' where
  nodup := (List.perm_append_singleton i order').nodup_iff.mpr
    (List.nodup_cons.mpr ⟨hi, h.nodup.sublist hsub⟩)
  perm := (List.perm_append_singleton i order').trans hperm
  used k hk := by
    rw [List.mem_append] at hk ⊢
    exact hk.imp_left fun hk => h.used k (hsub.subset hk)
  recent := recent_concat hi (h.recent.sublist hsub)
  bound := hbound

/-- Eviction drops a front part of the queue together with its writers, makes room, and loses
nothing. -/
lemma evictLoop_spec (capacity : ℕ) {order : List UInt32}
    {writers : AList fun _ : UInt32 => List UInt8} (files : ShardFiles) (hnodup : order.Nodup)
    (hperm : order.Perm writers.keys) :
    (evictLoop capacity order writers files).order <:+ order ∧
      (evictLoop capacity order writers files).order.Perm
        (evictLoop capacity order writers files).writers.keys ∧
      ((evictLoop capacity order writers files).order.length < capacity ∨
        (evictLoop capacity order writers files).order = []) ∧
      ∀ k, contentsOf (evictLoop capacity order writers files).writers
        (evictLoop capacity order writers files).files k = contentsOf writers files k := by
  induction order generalizing writers files with
  | nil => exact ⟨List.suffix_refl _, hperm, Or.inr rfl, fun _ => rfl⟩
  | cons victim order ih =>
    rw [evictLoop]
    split_ifs with hfull
    · have hrest : order.Perm (writers.erase victim).keys := by
        have h := hperm.erase victim
        rwa [List.erase_cons_head, ← AList.keys_erase] at h
      obtain ⟨hsuffix, hkeys, hroom, hcontents⟩ :=
        ih ((writers.lookup victim).elim files (appendTo files victim))
          (List.nodup_cons.mp hnodup).2 hrest
      refine ⟨hsuffix.trans (List.suffix_cons _ _), hkeys, hroom, fun k => ?_⟩
      rw [hcontents, contentsOf_close]
    · refine ⟨List.suffix_refl _, hperm, Or.inl ?_, fun _ => rfl⟩
      rw [hperm.length_eq]
      exact not_le.mp hfull

/-- Opening a file for appending changes no contents, but a file comes into being. -/
lemma openAppend_apply (files : ShardFiles) (i k : UInt32) :
    openAppend files i k = if k = i then some ((files k).getD []) else files k := by
  rw [openAppend, Function.update_apply]
  split_ifs with h
  · rw [h]
  · rfl

namespace ShardState

/-- The contents of the files of a state. -/
def contents (st : ShardState) (k : UInt32) : Option (List UInt8) :=
  contentsOf st.cache.writers st.files k

variable {st : ShardState} {uses : List UInt32}

/-- Queue and writers are in step, and every open writer has a file. -/
structure Sound (uses : List UInt32) (st : ShardState) : Prop where
  inStep : InStep uses st.cache.capacity st.cache.order st.cache.writers
  exist : ∀ k ∈ st.cache.writers, ∃ bytes, st.contents k = some bytes

/-- The writer of a chunk is opened: it is the last in the queue, its file exists, and no contents
change. -/
lemma touch_spec (h : st.Sound uses) (i : UInt32) :
    (st.touch i).Sound (uses ++ [i]) ∧ i ∈ (st.touch i).cache.writers ∧
      (st.touch i).contents i = some ((st.contents i).getD []) ∧
      ∀ k ≠ i, (st.touch i).contents k = st.contents k := by
  have hstep := h.inStep
  rw [touch]
  split_ifs with hopen
  · have hi : i ∈ st.cache.order := hstep.perm.mem_iff.mpr (AList.mem_keys.mp hopen)
    refine ⟨⟨?_, h.exist⟩, hopen, ?_, fun k _ => rfl⟩
    · refine InStep.concat hstep List.erase_sublist hstep.nodup.not_mem_erase ?_ hstep.bound
      exact (List.perm_cons_erase hi).symm.trans hstep.perm
    · obtain ⟨bytes, hbytes⟩ := h.exist i hopen
      rw [hbytes]
      exact hbytes
  · obtain ⟨hsuffix, hkeys, hroom, hcontents⟩ :=
      evictLoop_spec st.cache.capacity st.files hstep.nodup hstep.perm
    obtain ⟨e, he⟩ : ∃ e, e = evictLoop st.cache.capacity st.cache.order st.cache.writers
      st.files := ⟨_, rfl⟩
    rw [← he] at hsuffix hkeys hroom hcontents ⊢
    have hi : i ∉ e.order := fun hmem =>
      hopen (AList.mem_keys.mpr (hstep.perm.mem_iff.mp (hsuffix.subset hmem)))
    have hnew : i ∉ e.writers.keys := fun hmem => hi (hkeys.mem_iff.mpr hmem)
    have hinsert : (e.writers.insert i []).keys = i :: e.writers.keys := by
      rw [AList.keys_insert, List.erase_of_not_mem hnew]
    have hhere : contentsOf (e.writers.insert i []) (openAppend e.files i) i =
        some ((st.contents i).getD []) := by
      have hold := hcontents i
      rw [contentsOf, AList.lookup_eq_none.mpr hnew] at hold
      rw [contentsOf, AList.lookup_insert, openAppend_apply, if_pos rfl, Option.map_some, contents,
        ← hold]
      cases e.files i with
      | none => rfl
      | some bytes => rfl
    have hothers : ∀ k ≠ i, contentsOf (e.writers.insert i []) (openAppend e.files i) k =
        st.contents k := by
      intro k hk
      rw [contentsOf, AList.lookup_insert_ne hk, openAppend_apply, if_neg hk]
      exact hcontents k
    refine ⟨⟨?_, fun k hk => ?_⟩, (AList.mem_insert _).mpr (Or.inl rfl), hhere, hothers⟩
    · refine InStep.concat hstep hsuffix.sublist hi ?_ ?_
      · rw [hinsert]
        exact hkeys.cons i
      · rw [hinsert, List.length_cons, ← hkeys.length_eq]
        change e.order.length + 1 ≤ max st.cache.capacity 1
        rcases hroom with hroom | hroom
        · omega
        · rw [hroom, List.length_nil]
          omega
    · rcases (AList.mem_insert _).mp hk with rfl | hk
      · exact ⟨_, hhere⟩
      · have hne : k ≠ i := fun heq => hnew (AList.mem_keys.mp (heq ▸ hk))
        have hwas : k ∈ st.cache.writers := AList.mem_keys.mpr
          (hstep.perm.mem_iff.mp (hsuffix.subset (hkeys.mem_iff.mpr (AList.mem_keys.mp hk))))
        obtain ⟨bytes, hbytes⟩ := h.exist k hwas
        exact ⟨bytes, (hothers k hne).trans hbytes⟩

/-- Handing over bytes adds them to the contents of the file. -/
lemma write_spec (pieces : Pieces) {i : UInt32} (hopen : i ∈ st.cache.writers)
    (bytes : List UInt8) (h : st.Sound uses) :
    (st.write pieces i bytes).Sound uses ∧
      (st.write pieces i bytes).contents i = (st.contents i).map (· ++ bytes) ∧
      ∀ k ≠ i, (st.write pieces i bytes).contents k = st.contents k := by
  have hw := writePieces_spec bufWriterCapacity ((st.cache.writers.lookup i).getD [])
    (pieces.cut bytes)
  rw [pieces.flatten_cut] at hw
  obtain ⟨w, hweq⟩ : ∃ w, w = writePieces bufWriterCapacity
    ((st.cache.writers.lookup i).getD []) (pieces.cut bytes) := ⟨_, rfl⟩
  rw [← hweq] at hw
  have hkeys : (st.cache.writers.insert i w.2).keys.Perm st.cache.writers.keys := by
    rw [AList.keys_insert]
    exact (List.perm_cons_erase (AList.mem_keys.mp hopen)).symm
  have hhere : contentsOf (st.cache.writers.insert i w.2) (appendTo st.files i w.1) i =
      (st.contents i).map (· ++ bytes) := by
    rw [contents, contentsOf, contentsOf, AList.lookup_insert, appendTo_apply, if_pos rfl,
      Option.map_map, Option.map_map]
    congr 1
    funext bytes'
    change bytes' ++ w.1 ++ w.2 = bytes' ++ _ ++ bytes
    rw [List.append_assoc, List.append_assoc, hw]
  have hothers : ∀ k ≠ i, contentsOf (st.cache.writers.insert i w.2) (appendTo st.files i w.1) k =
      st.contents k := by
    intro k hk
    rw [contentsOf, AList.lookup_insert_ne hk, appendTo_apply, if_neg hk]
    rfl
  have hstep := h.inStep
  rw [write, ← hweq]
  refine ⟨⟨⟨hstep.nodup, hstep.perm.trans hkeys.symm, hstep.used, hstep.recent,
    hkeys.length_eq ▸ hstep.bound⟩, fun k hk => ?_⟩, hhere, hothers⟩
  by_cases hki : k = i
  · subst hki
    obtain ⟨bytes', hbytes'⟩ := h.exist k hopen
    exact ⟨_, hhere.trans (by rw [hbytes', Option.map_some])⟩
  · obtain ⟨bytes', hbytes'⟩ := h.exist k (((AList.mem_insert _).mp hk).resolve_left hki)
    exact ⟨bytes', (hothers k hki).trans hbytes'⟩

/-- The settings of a cache do not change. -/
def SameSettings (st st' : ShardState) : Prop :=
  st'.cache.capacity = st.cache.capacity ∧ st'.cache.numExtraBytes = st.cache.numExtraBytes ∧
    st'.cache.codec = st.cache.codec

lemma sameSettings_touch (st : ShardState) (i : UInt32) : st.SameSettings (st.touch i) := by
  rw [touch]
  split_ifs
  · exact ⟨rfl, rfl, rfl⟩
  · exact ⟨rfl, rfl, rfl⟩

/-- Appending points adds a batch to the contents of one file. -/
lemma append_spec {lz4 : FrameCodec} {pieces : Pieces} {st' : ShardState} {i : UInt32}
    {points : List RawPoint} (h : st.Sound uses) (hne : points ≠ [])
    (happend : st.append lz4 pieces i points = some st') :
    st'.Sound (uses ++ [i]) ∧ st.SameSettings st' ∧
      (∃ bytes, writeTempBatch lz4 st.cache.codec st.cache.numExtraBytes points = some bytes ∧
        st'.contents i = some ((st.contents i).getD [] ++ bytes)) ∧
      ∀ k ≠ i, st'.contents k = st.contents k := by
  rw [append, if_neg hne] at happend
  obtain ⟨bytes, hbytes, rfl⟩ := Option.map_eq_some_iff.mp happend
  obtain ⟨hsound, hopen, hhere, hothers⟩ := touch_spec h i
  obtain ⟨hsound', hhere', hothers'⟩ := write_spec pieces hopen bytes hsound
  refine ⟨hsound', sameSettings_touch st i, ⟨bytes, hbytes, ?_⟩, fun k hk => ?_⟩
  · rw [hhere', hhere, Option.map_some]
  · rw [hothers' k hk, hothers k hk]

/-- Appending no points changes nothing. -/
lemma append_nil (lz4 : FrameCodec) (pieces : Pieces) (st : ShardState) (i : UInt32) :
    st.append lz4 pieces i [] = some st := if_pos rfl

end ShardState

/-! ## Whole runs -/

/-- A new cache, and no files. -/
def ShardState.start (capacity : ℕ) (numExtraBytes : UInt16) (codec : TempCompression) :
    ShardState :=
  ⟨ChunkWriterCache.new capacity numExtraBytes codec, fun _ => none⟩

/-- The chunks that are written to, in order. -/
def usesOf (calls : List (UInt32 × List RawPoint)) : List UInt32 :=
  (calls.filter fun c => c.2 ≠ []).map Prod.fst

/-- The batches for a chunk, those without points left out. -/
def batchesFor (k : UInt32) (calls : List (UInt32 × List RawPoint)) : List (List RawPoint) :=
  (calls.filter fun c => c.1 = k ∧ c.2 ≠ []).map Prod.snd

/-- A cache in step with the calls so far, and files whose contents are the batches so far. -/
structure Holds (lz4 : FrameCodec) (capacity : ℕ) (numExtraBytes : UInt16)
    (codec : TempCompression) (calls : List (UInt32 × List RawPoint)) (st : ShardState) :
    Prop where
  sound : st.Sound (usesOf calls)
  settings : (ShardState.start capacity numExtraBytes codec).SameSettings st
  contents : ∀ k, ∃ bytes,
    writeBatches lz4 codec numExtraBytes (batchesFor k calls) = some bytes ∧
      st.contents k = if batchesFor k calls = [] then none else some bytes

section Run

variable {lz4 : FrameCodec} {pieces : Pieces} {capacity : ℕ} {numExtraBytes : UInt16}
  {codec : TempCompression}

lemma Holds.start : Holds lz4 capacity numExtraBytes codec []
    (ShardState.start capacity numExtraBytes codec) where
  sound := ⟨InStep.empty capacity, fun _ hk => absurd hk (AList.notMem_empty _)⟩
  settings := ⟨rfl, rfl, rfl⟩
  contents _ := ⟨[], rfl, rfl⟩

/-- What one more call preserves. -/
lemma Holds.append {calls : List (UInt32 × List RawPoint)} {st st' : ShardState}
    (h : Holds lz4 capacity numExtraBytes codec calls st) {call : UInt32 × List RawPoint}
    (happend : st.append lz4 pieces call.1 call.2 = some st') :
    Holds lz4 capacity numExtraBytes codec (calls ++ [call]) st' := by
  obtain ⟨i, points⟩ := call
  by_cases hne : points = []
  · subst hne
    obtain rfl : st = st' := Option.some.inj ((ShardState.append_nil lz4 pieces st i).symm.trans
      happend)
    have huses : usesOf (calls ++ [(i, [])]) = usesOf calls := by simp [usesOf]
    have hbatches : ∀ k, batchesFor k (calls ++ [(i, [])]) = batchesFor k calls := by
      intro k
      simp [batchesFor]
    refine ⟨huses ▸ h.sound, h.settings, fun k => ?_⟩
    rw [hbatches]
    exact h.contents k
  · obtain ⟨hsound, hsettings, ⟨bytes, hbytes, hhere⟩, hothers⟩ :=
      ShardState.append_spec h.sound hne happend
    have huses : usesOf (calls ++ [(i, points)]) = usesOf calls ++ [i] := by
      simp [usesOf, hne]
    have hbatch : batchesFor i (calls ++ [(i, points)]) = batchesFor i calls ++ [points] := by
      simp [batchesFor, hne]
    have hbatches : ∀ k ≠ i, batchesFor k (calls ++ [(i, points)]) = batchesFor k calls := by
      intro k hk
      simp [batchesFor, Ne.symm hk]
    refine ⟨huses ▸ hsound, ?_, fun k => ?_⟩
    · exact ⟨hsettings.1.trans h.settings.1, hsettings.2.1.trans h.settings.2.1,
        hsettings.2.2.trans h.settings.2.2⟩
    · by_cases hk : k = i
      · subst hk
        obtain ⟨before, hbefore, hcontents⟩ := h.contents k
        have hcodec : st.cache.codec = codec := h.settings.2.2
        have hextra : st.cache.numExtraBytes = numExtraBytes := h.settings.2.1
        rw [hcodec, hextra] at hbytes
        refine ⟨before ++ bytes, ?_, ?_⟩
        · rw [hbatch, writeBatches_concat, hbefore, hbytes]
          rfl
        · rw [hbatch, if_neg (by simp), hhere, hcontents]
          split_ifs with hnil
          · rw [hnil] at hbefore
            obtain rfl := Option.some.inj hbefore
            rfl
          · rfl
      · rw [hbatches k hk, hothers k hk]
        exact h.contents k

/-- A run and one more call. -/
lemma appendAll_concat (st : ShardState) (calls : List (UInt32 × List RawPoint))
    (call : UInt32 × List RawPoint) :
    st.appendAll lz4 pieces (calls ++ [call]) =
      (st.appendAll lz4 pieces calls).bind fun st => st.append lz4 pieces call.1 call.2 := by
  rw [ShardState.appendAll, List.foldlM_append]
  congr 1
  funext st'
  rw [List.foldlM_cons]
  exact bind_pure _

/-- What a whole run preserves. -/
lemma Holds.appendAll (calls : List (UInt32 × List RawPoint)) {st : ShardState}
    (h : (ShardState.start capacity numExtraBytes codec).appendAll lz4 pieces calls = some st) :
    Holds lz4 capacity numExtraBytes codec calls st := by
  induction calls using List.reverseRecOn generalizing st with
  | nil =>
    obtain rfl := Option.some.inj h
    exact Holds.start
  | append_singleton calls call ih =>
    rw [appendAll_concat] at h
    obtain ⟨st', hst', happend⟩ := Option.bind_eq_some_iff.mp h
    exact (ih hst').append happend

/-- A shorter run succeeds when the longer one does. -/
lemma exists_appendAll_prefix {st : ShardState} {done calls : List (UInt32 × List RawPoint)}
    (hdone : done <+: calls) {st' : ShardState} (h : st.appendAll lz4 pieces calls = some st') :
    ∃ mid, st.appendAll lz4 pieces done = some mid := by
  obtain ⟨rest, rfl⟩ := hdone
  rw [ShardState.appendAll, List.foldlM_append] at h
  obtain ⟨mid, hmid, -⟩ := Option.bind_eq_some_iff.mp h
  exact ⟨mid, hmid⟩

/-- Between any two calls queue and writers are in step and within the bound; and once all writers
are flushed, the file of a chunk holds the batches for it that have points, in order and each
once. -/
theorem chunkWriterCache_run {calls : List (UInt32 × List RawPoint)} {st : ShardState}
    (h : (ShardState.start capacity numExtraBytes codec).appendAll lz4 pieces calls = some st) :
    (∀ done, done <+: calls → ∃ mid,
      (ShardState.start capacity numExtraBytes codec).appendAll lz4 pieces done = some mid ∧
        InStep (usesOf done) capacity mid.cache.order mid.cache.writers) ∧
    ∀ o k, ∃ bytes,
      writeBatches lz4 codec numExtraBytes (batchesFor k calls) = some bytes ∧
        (st.flushAll o).files k = if batchesFor k calls = [] then none else some bytes := by
  refine ⟨fun done hdone => ?_, fun o k => ?_⟩
  · obtain ⟨mid, hmid⟩ := exists_appendAll_prefix hdone h
    have hholds := Holds.appendAll done hmid
    have hstep := hholds.sound.inStep
    rw [show mid.cache.capacity = capacity from hholds.settings.1] at hstep
    exact ⟨mid, hmid, hstep⟩
  · obtain ⟨bytes, hbytes, hcontents⟩ := (Holds.appendAll calls h).contents k
    exact ⟨bytes, hbytes, (files_flushAll o st k).trans hcontents⟩

/-- When every point carries the extra bytes that are announced, no call fails. -/
lemma exists_appendAll {calls : List (UInt32 × List RawPoint)}
    (hcarries : ∀ c ∈ calls, Carries numExtraBytes c.2) :
    ∃ st, (ShardState.start capacity numExtraBytes codec).appendAll lz4 pieces calls =
      some st := by
  induction calls using List.reverseRecOn with
  | nil => exact ⟨_, rfl⟩
  | append_singleton calls call ih =>
    obtain ⟨st, hst⟩ := ih fun c hc => hcarries c (List.mem_append_left _ hc)
    have hextra : st.cache.numExtraBytes = numExtraBytes :=
      (Holds.appendAll calls hst).settings.2.1
    have hcall : Carries st.cache.numExtraBytes call.2 :=
      hextra ▸ hcarries call (List.mem_append_right _ (List.mem_singleton_self call))
    rw [appendAll_concat, hst, Option.bind_some, ShardState.append]
    split_ifs
    · exact ⟨st, rfl⟩
    · exact ⟨_, by rw [writeTempBatch_eq _ _ hcall, Option.map_some]⟩

end Run

/-- Two chunks written in turn through a cache of capacity zero: one writer is open, that of the
chunk used last, and each file holds its own batches. -/
theorem chunkWriterCache_run_in_turn : ∃ st,
    (ShardState.start 0 0 .none).appendAll storedFrames .whole
      [(0, [default]), (1, [default, default]), (2, []), (0, [default])] = some st ∧
    st.cache.order = [0] ∧ st.cache.writers.keys = [0] ∧
    ∃ bytes, writeBatches storedFrames .none 0 [[default], [default]] = some bytes ∧
      (st.flushAll .listed).files 0 = some bytes ∧ (st.flushAll .listed).files 2 = none := by
  obtain ⟨st, hst⟩ := @exists_appendAll storedFrames .whole 0 0 .none
    [(0, [default]), (1, [default, default]), (2, []), (0, [default])] (by decide)
  obtain ⟨hsteps, hfiles⟩ := chunkWriterCache_run hst
  obtain ⟨mid, hmid, hstep⟩ := hsteps _ (List.prefix_refl _)
  obtain rfl : st = mid := Option.some.inj (hst.symm.trans hmid)
  have horder : ((ShardState.start 0 0 .none).appendAll storedFrames .whole
      [(0, [default]), (1, [default, default]), (2, []), (0, [default])]).map
        (fun st => st.cache.order) = some [0] := by decide +kernel
  rw [hst, Option.map_some, Option.some.injEq] at horder
  have hkeys := hstep.perm
  rw [horder] at hkeys
  obtain ⟨bytes, hbytes, hfile⟩ := hfiles .listed 0
  obtain ⟨bytes', hbytes', hnone⟩ := hfiles .listed 2
  exact ⟨st, hst, horder, List.perm_singleton.mp hkeys.symm, bytes, hbytes,
    hfile.trans (if_neg (by decide)), hnone.trans (if_pos rfl)⟩

end CopcConverter
