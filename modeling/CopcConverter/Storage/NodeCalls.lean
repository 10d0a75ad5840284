import CopcConverter.Foundations.MapCalls
import CopcConverter.Octree.VoxelKey
import CopcConverter.Storage.TempBatches

/-!
# Calls to a node store

A node store keeps the points of the octree nodes during the build.  Points are written under a key,
read back and counted, from several threads at a time.  There are two stores, one with a file for
every node and one that packs many nodes into a few files; what they share is here: the calls, the
answers, and what is read from the bytes of a batch.

Both stores write the points of a node as one batch in the format of the temp files, with or without
compression, and both read it with the same functions.  Points that carry their extra bytes and are
fewer than `2 ^ 32` fit a batch, and are then read back and counted correctly from any file position
that delivers its bytes.
-/

namespace CopcConverter

open Reader

/-! ## Calls and answers -/

/-- What is asked about a node. -/
inductive NodeQuery where
  | read
  | count

/-- What a call returns; `failed` stands for every error. -/
inductive NodeAnswer where
  | written
  | points (points : List RawPoint)
  | total (n : ℕ)
  | failed

/-- Write the points of a node, or ask about them. -/
abbrev NodeCall : Type := Calls.MapCall VoxelKey (List RawPoint) NodeQuery

/-- The answer when a node has these points. -/
def NodeQuery.answer : NodeQuery → List RawPoint → NodeAnswer
  | .read, points => .points points
  | .count, points => .total points.length

/-! ## The batch of a node -/

/-- How batches are written and read. -/
structure NodeFormat where
  lz4 : FrameCodec
  codec : TempCompression
  numExtraBytes : UInt16

namespace NodeFormat

variable (fmt : NodeFormat)

/-- The bytes of some points. -/
def write (points : List RawPoint) : Option (List UInt8) :=
  writeTempBatch fmt.lz4 fmt.codec fmt.numExtraBytes points

/-- The points in some bytes. -/
def read {σ : Type} (read : ReadFn σ) (s : σ) (fuel : ℕ) : NodeAnswer :=
  (readTempBatches fmt.lz4 fmt.codec fmt.numExtraBytes read s fuel).elim .failed .points

/-- The number of points in a file. -/
def count (file : Option FileHandle) (fuel : ℕ) : NodeAnswer :=
  (countTempFilePoints fmt.lz4 fmt.codec fmt.numExtraBytes file fuel).elim .failed fun n =>
    .total n.toNat

/-- The batch of some points that all carry their extra bytes. -/
def frame (points : List RawPoint) : List UInt8 := fmt.codec.frame fmt.lz4 (batchBytes points)

/-- Points that can be written as one batch whose sizes are numbers of 32 bits. -/
structure Fits (points : List RawPoint) : Prop where
  carries : Carries fmt.numExtraBytes points
  bytes : (fmt.frame points).length < 2 ^ 32
  few : points.length < 2 ^ 32

variable {fmt} {points : List RawPoint}

lemma Fits.write_eq (h : fmt.Fits points) : fmt.write points = some (fmt.frame points) :=
  writeTempBatch_eq fmt.lz4 fmt.codec h.carries

/-- One batch is all there is. -/
lemma fileBytes_frame (points : List RawPoint) :
    fileBytes fmt.lz4 fmt.codec [points] = fmt.frame points := List.flatMap_singleton _ _

lemma Fits.batch (h : fmt.Fits points) :
    (∀ b ∈ [points], b.length < 2 ^ 32) ∧ ∀ b ∈ [points], Carries fmt.numExtraBytes b :=
  ⟨List.forall_mem_singleton.mpr h.few, List.forall_mem_singleton.mpr h.carries⟩

/-- The points are read back from their batch. -/
lemma Fits.read_eq (h : fmt.Fits points) (hlz4 : fmt.lz4.Lawful) {σ : Type} {read : ReadFn σ}
    {s : σ} (hs : Delivers read s (fmt.frame points)) {fuel : ℕ} (hfuel : 1 < fuel) :
    fmt.read read s fuel = .points points := by
  rw [← fileBytes_frame] at hs
  rw [NodeFormat.read, readTempBatches_spec hlz4 h.batch.1 h.batch.2 hs hfuel, Option.elim_some,
    List.flatten_singleton]

/-- The points are counted from their batch. -/
lemma Fits.count_eq (h : fmt.Fits points) (hlz4 : fmt.lz4.Lawful) {file : FileHandle}
    (hfile : file.At (fmt.frame points)) {fuel : ℕ} (hfuel : 1 < fuel) :
    fmt.count (some file) fuel = .total points.length := by
  rw [← fileBytes_frame] at hfile
  have hlt : points.length < 2 ^ 64 := lt_of_lt_of_le h.few (by norm_num)
  rw [NodeFormat.count, countTempFilePoints_spec hlz4 h.batch.1 h.batch.2 hfile hfuel,
    Option.elim_some, List.flatten_singleton, UInt64.toNat_ofNat_of_lt' hlt]

end NodeFormat

end CopcConverter
