import CopcConverter.Foundations.Footprint
import CopcConverter.Storage.ChunkWriterCache

/-!
# Merging the shards of the chunks

Every distribute worker leaves a directory of its own, with a file for each chunk it had points for.
`merge_chunk_shards` makes one canonical file of these for every chunk: the first of them is
renamed, the others are appended to it in the order of the workers, and a chunk without any gets an
empty file.  The shard directories are removed afterwards.

The chunks may be merged in any order, since the work for one chunk touches nothing of another one:
what there is of a chunk, its canonical file and its shards, is a view of the directories that only
its own step changes.  So the canonical file of every chunk that is counted holds its shards in the
order of the workers, and there is no other canonical file.
-/

namespace CopcConverter

open Footprint

/-! ## One chunk -/

/-- The canonical files of the chunks, and the shard directory of every worker. -/
structure ChunkDirs where
  canonical : ShardFiles
  shards : List ShardFiles

/-- Take the file of a chunk out of the first directory that has one. -/
def takeFirst (chunkIdx : UInt32) : List ShardFiles → List ShardFiles
  | [] => []
  | shard :: shards =>
    if (shard chunkIdx).isSome then Function.update shard chunkIdx none :: shards
    else shard :: takeFirst chunkIdx shards

/-- Make the canonical file of a chunk from the shards that exist. -/
def mergeChunk (dirs : ChunkDirs) (chunkIdx : UInt32) : ChunkDirs :=
  match dirs.shards.filterMap fun shard => shard chunkIdx with
  | [] => { dirs with canonical := Function.update dirs.canonical chunkIdx (some []) }
  | [single] =>
    { canonical := Function.update dirs.canonical chunkIdx (some single)
      shards := takeFirst chunkIdx dirs.shards }
  | first :: rest =>
    { canonical := rest.foldl (fun files bytes => appendTo files chunkIdx bytes)
        (Function.update dirs.canonical chunkIdx (some first))
      shards := takeFirst chunkIdx dirs.shards }

/-- Merge the shards of all chunks, in any order; the shard directories are removed afterwards. -/
def mergeChunkShards (o : IterOrder) (nChunks : UInt32) (shards : List ShardFiles) : ShardFiles :=
  (((o.list (List.range nChunks.toNat)).map UInt32.ofNat).foldl mergeChunk
    ⟨fun _ => none, shards⟩).canonical

/-! ## What a merge leaves -/

/-- What there is of a chunk: its canonical file and its shards. -/
def ChunkDirs.view (dirs : ChunkDirs) (k : UInt32) :
    Option (List UInt8) × List (Option (List UInt8)) :=
  (dirs.canonical k, dirs.shards.map fun shard => shard k)

lemma map_takeFirst_of_ne {i k : UInt32} (hk : k ≠ i) (shards : List ShardFiles) :
    (takeFirst i shards).map (fun shard => shard k) = shards.map fun shard => shard k := by
  induction shards with
  | nil => rfl
  | cons shard shards ih =>
    rw [takeFirst]
    split_ifs
    · rw [List.map_cons, List.map_cons, Function.update_of_ne hk]
    · rw [List.map_cons, List.map_cons, ih]

lemma map_takeFirst_congr {i : UInt32} {shards shards' : List ShardFiles}
    (h : (shards.map fun shard => shard i) = shards'.map fun shard => shard i) :
    (takeFirst i shards).map (fun shard => shard i) =
      (takeFirst i shards').map fun shard => shard i := by
  induction shards generalizing shards' with
  | nil =>
    rw [List.map_nil, eq_comm, List.map_eq_nil_iff] at h
    rw [h]
  | cons shard shards ih =>
    obtain ⟨shard', rest, rfl, hshard, hrest⟩ := List.map_eq_cons_iff.mp h.symm
    rw [takeFirst, takeFirst, hshard]
    split_ifs
    · rw [List.map_cons, List.map_cons, Function.update_self, Function.update_self, hrest]
    · rw [List.map_cons, List.map_cons, hshard, ih hrest.symm]

lemma foldl_appendTo_apply (i k : UInt32) (rest : List (List UInt8)) (files : ShardFiles) :
    rest.foldl (fun files bytes => appendTo files i bytes) files k =
      if k = i then (files k).map (· ++ rest.flatten) else files k := by
  induction rest generalizing files with
  | nil =>
    rw [List.foldl_nil, List.flatten_nil]
    cases files k <;> simp
  | cons bytes rest ih =>
    rw [List.foldl_cons, ih, appendTo_apply]
    split_ifs
    · rw [Option.map_map, List.flatten_cons]
      congr 1
      funext front
      exact List.append_assoc _ _ _
    · rfl

/-- The shards of a chunk make its canonical file, one after the other. -/
lemma canonical_mergeChunk (dirs : ChunkDirs) (i k : UInt32) :
    (mergeChunk dirs i).canonical k = if k = i then
      some (dirs.shards.filterMap fun shard => shard i).flatten else dirs.canonical k := by
  unfold mergeChunk
  split
  · next hnone =>
    rw [hnone]
    exact Function.update_apply _ _ _ _
  · next single hone =>
    rw [hone, List.flatten_singleton]
    exact Function.update_apply _ _ _ _
  · next first rest _ hmore =>
    rw [hmore]
    refine (foldl_appendTo_apply _ _ _ _).trans ?_
    rw [Function.update_apply]
    split_ifs <;> rfl

/-- The shards that are left are those of before, but for the one that was renamed. -/
lemma shards_mergeChunk (dirs : ChunkDirs) (i : UInt32) :
    (mergeChunk dirs i).shards =
      if (dirs.shards.filterMap fun shard => shard i) = [] then dirs.shards
      else takeFirst i dirs.shards := by
  unfold mergeChunk
  split
  · next hnone => rw [if_pos hnone]
  · next single hone => rw [if_neg (by rw [hone]; exact List.cons_ne_nil _ _)]
  · next first rest _ hmore => rw [if_neg (by rw [hmore]; exact List.cons_ne_nil _ _)]

/-- Merging a chunk touches its own files only. -/
lemma local_mergeChunk : Local ChunkDirs.view (fun i k : UInt32 => k = i) mergeChunk where
  frame dirs i k hk := by
    unfold ChunkDirs.view
    rw [canonical_mergeChunk, if_neg hk, shards_mergeChunk]
    split_ifs
    · rfl
    · rw [map_takeFirst_of_ne hk]
  congr dirs dirs' i h k hk := by
    subst hk
    obtain ⟨-, hshards⟩ := Prod.mk.inj (h k rfl)
    have hfiles : (dirs.shards.filterMap fun shard => shard k) =
        dirs'.shards.filterMap fun shard => shard k := by
      have hmap := congrArg (List.filterMap id) hshards
      rwa [List.filterMap_map, List.filterMap_map] at hmap
    unfold ChunkDirs.view
    rw [canonical_mergeChunk, canonical_mergeChunk, if_pos rfl, if_pos rfl, shards_mergeChunk,
      shards_mergeChunk, hfiles]
    split_ifs
    · rw [hshards]
    · rw [map_takeFirst_congr hshards]

/-- The canonical file of every chunk is there and holds its shards in the order of the workers; no
other canonical file is there. -/
theorem mergeChunkShards_apply (o : IterOrder) (nChunks : UInt32) (shards : List ShardFiles)
    (k : UInt32) : mergeChunkShards o nChunks shards k =
      if k < nChunks then some (shards.filterMap fun shard => shard k).flatten else none := by
  set indices := (o.list (List.range nChunks.toNat)).map UInt32.ofNat
  have hmem : k ∈ indices ↔ k < nChunks := by
    rw [List.mem_map, UInt32.lt_iff_toNat_lt]
    constructor
    · rintro ⟨i, hi, rfl⟩
      rw [IterOrder.mem_list, List.mem_range] at hi
      rwa [UInt32.toNat_ofNat', Nat.mod_eq_of_lt (hi.trans nChunks.toNat_lt)]
    · intro h
      refine ⟨k.toNat, ?_, UInt32.ofNat_toNat⟩
      rwa [IterOrder.mem_list, List.mem_range]
  have hapart : indices.Pairwise (Apart fun i k : UInt32 => k = i) := by
    have hnodup : indices.Nodup := by
      refine List.Nodup.map_on (fun i hi j hj hij => ?_)
        ((o.list_perm _).nodup_iff.mpr List.nodup_range)
      rw [IterOrder.mem_list, List.mem_range] at hi hj
      have hnat := congrArg UInt32.toNat hij
      rwa [UInt32.toNat_ofNat', UInt32.toNat_ofNat', Nat.mod_eq_of_lt (hi.trans nChunks.toNat_lt),
        Nat.mod_eq_of_lt (hj.trans nChunks.toNat_lt)] at hnat
    refine hnodup.imp fun hne j hj hj' => hne ?_
    rw [← hj, hj']
  by_cases hk : k < nChunks
  · rw [if_pos hk]
    have hview := foldl_view local_mergeChunk hapart (hmem.mpr hk) rfl
      ⟨fun _ => none, shards⟩
    apply (congrArg Prod.fst hview).trans
    change (mergeChunk _ k).canonical k = _
    rw [canonical_mergeChunk, if_pos rfl]
  · rw [if_neg hk]
    have hview := foldl_frame local_mergeChunk (L := indices) (k := k)
      (fun i hi hki => hk (hmem.mp (hki ▸ hi))) ⟨fun _ => none, shards⟩
    exact congrArg Prod.fst hview

end CopcConverter
