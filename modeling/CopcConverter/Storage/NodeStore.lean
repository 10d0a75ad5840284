import CopcConverter.Storage.FileNodeStore
import CopcConverter.Storage.PackedLocks

/-!
# Node stores

Both stores behave as a map from keys to points, however the calls of the threads are interleaved: a
query that overlaps with no write of its key is answered about the points that were written last,
and in every run every call can be brought to its end.  This is the form in which the build uses a
store, and it is put together here from the modules about either store.

It is also the place for what goes wrong at the edges of the numbers.  The pack store keeps the
number of a pack in 16 bits and the number of points in 32 bits.  With more packs a read goes to the
wrong pack, and a compressed batch of more points can still be short, so that it is stored; what is
counted then is the number modulo `2 ^ 32`.
-/

namespace CopcConverter

open Calls Reader

/-- Both stores behave as a map in every run in which no two writes of one key overlap, and every
call can be brought to its end. -/
theorem nodeStores_behaveAsMap {T : Type} [DecidableEq T] {fmt : NodeFormat}
    (hlz4 : fmt.lz4.Lawful) (threadIndex : T → Option ℕ) {packCount : ℕ}
    (hpacks : 0 < packCount ∧ packCount ≤ 2 ^ 16) {fuel : ℕ} (hfuel : 1 < fuel)
    (actions : List (Action T NodeCall (ℕ → ℕ))) :
    (∀ s, (System.start .new).run
        (PackedNodeStore.calls ⟨fmt, packCount, threadIndex⟩ fuel) actions = some s →
      WritesApart s.history → WritesOnly fmt.Fits s.history →
      BehavesAsMap [] .written NodeQuery.answer s.history ∧
        ∀ t, CanReturn (PackedNodeStore.calls ⟨fmt, packCount, threadIndex⟩ fuel) s t) ∧
    (∀ s, (System.start fun _ => none).run (FileNodeStore.calls ⟨fmt⟩ T fuel) actions = some s →
      WritesApart s.history → WritesOnly fmt.Fits s.history →
      BehavesAsMap [] .written NodeQuery.answer s.history ∧
        ∀ t, CanReturn (FileNodeStore.calls ⟨fmt⟩ T fuel) s t) := by
  refine ⟨fun s hrun hapart hfits => ⟨?_, fun t => ?_⟩,
    fun s hrun hapart hfits => ⟨?_, fun t => ?_⟩⟩
  · exact PackedNodeStore.behavesAsMap hlz4 hfuel hpacks hrun hapart hfits
  · exact PackedNodeStore.calls_canReturn fuel hrun t
  · exact FileNodeStore.behavesAsMap hlz4 hfuel hrun hapart hfits
  · exact FileNodeStore.calls_canReturn hrun t

/-- A thread takes a step; its accesses to files transfer up to `n + 1` bytes. -/
def goOn {T : Type} (t : T) (n : ℕ) : Action T NodeCall (ℕ → ℕ) := .step t fun _ => n

/-- The call of a thread returns. -/
def comeBack {T : Type} (t : T) (n : ℕ) : Action T NodeCall (ℕ → ℕ) := .respond t fun _ => n

/-- Two threads write two nodes to one pack; the first one reads its node back while the second is
not done. -/
def sideBySide : List (Action Bool NodeCall (ℕ → ℕ)) :=
  [.invoke false (.write .root [default]), .invoke true (.write ⟨1, 0, 0, 0⟩ [default, default]),
    goOn false 0, goOn false 0, goOn true 0, goOn false 0, comeBack false 0, goOn true 0,
    .invoke false (.query .read .root), goOn false 0, goOn false 0, goOn false 99, goOn false 199,
    goOn false 0, goOn true 0, goOn false 0, comeBack false 6]

set_option maxRecDepth 8000 in
/-- The node is read back as it was written. -/
theorem nodeStores_behaveAsMap_sideBySide : ∃ s r before, (System.start .new).run
      (PackedNodeStore.calls ⟨⟨storedFrames, .lz4, 0⟩, 1, fun t => if t then some 4 else none⟩ 2)
        sideBySide = some s ∧
    s.history = .respond false (.query .read .root) r :: before ∧ r = .points [default] := by
  obtain ⟨s, r, hrun, hs⟩ : ∃ s r, (System.start .new).run
      (PackedNodeStore.calls ⟨⟨storedFrames, .lz4, 0⟩, 1, fun t => if t then some 4 else none⟩ 2)
        sideBySide = some s ∧
      s.history = [.respond false (.query .read .root) r, .invoke false (.query .read .root),
        .respond false (.write .root [default]) .written,
        .invoke true (.write ⟨1, 0, 0, 0⟩ [default, default]),
        .invoke false (.write .root [default])] := ⟨_, _, rfl, rfl⟩
  have hcalls : ∀ t k v, .invoke t (.write k v) ∈ s.history →
      (t = false ∧ k = .root ∧ v = [default]) ∨
        (t = true ∧ k = ⟨1, 0, 0, 0⟩ ∧ v = [default, default]) := by
    intro t k v hmem
    rw [hs] at hmem
    simp only [List.mem_cons, List.not_mem_nil, or_false, reduceCtorEq, false_or,
      Event.invoke.injEq, MapCall.write.injEq, and_false] at hmem
    exact hmem.symm
  have hapart : WritesApart s.history := by
    refine writesApart_of_owner (fun k => decide (k = ⟨1, 0, 0, 0⟩)) fun t k v hmem => ?_
    obtain ⟨rfl, rfl, -⟩ | ⟨rfl, rfl, -⟩ := hcalls t k v hmem
    · rfl
    · rfl
  have hfits : WritesOnly (NodeFormat.Fits ⟨storedFrames, .lz4, 0⟩) s.history := by
    intro t k v hmem
    obtain ⟨-, -, rfl⟩ | ⟨-, -, rfl⟩ := hcalls t k v hmem
    · exact ⟨by decide, by decide +kernel, by decide⟩
    · exact ⟨by decide, by decide +kernel, by decide⟩
  have hmap := ((@nodeStores_behaveAsMap Bool _ ⟨storedFrames, .lz4, 0⟩ storedFrames_lawful
    (fun t => if t then some 4 else none) 1 ⟨Nat.one_pos, by decide⟩ 2 Nat.one_lt_two
    sideBySide).1 s hrun hapart hfits).1
  refine ⟨s, r, _, hrun, hs, ?_⟩
  refine hmap.queries [] [] _ false .read .root r hs (fun e he => by cases he) ⟨?_, ?_⟩
  · rintro t ⟨v, hv⟩
    cases t with
    | false => cases hv
    | true => cases hv
  · intro t v hmem
    cases hmem

/-! ## Frames that are short -/

/-- Where a decoder of `zeroRuns` stands. -/
inductive RunDecoder (σ : Type) where
  | between (s : σ)
  | zeros (n : ℕ) (s : σ)
  | bytes (s : σ)

namespace RunDecoder

variable {σ : Type} (read : ReadFn σ)

/-- Some of the zeros that are left. -/
def giveZeros (n len : ℕ) (s : σ) : List UInt8 × RunDecoder σ :=
  if len = 0 then ([], .between s) else (List.replicate (min n len) 0, .zeros (len - min n len) s)

/-- The next of the bytes that are stored one by one. -/
def giveBytes (n : ℕ) (s : σ) : List UInt8 × RunDecoder σ :=
  let r := storedFrames.read read n s
  (r.1, if r.1 = [] then .between r.2 else .bytes r.2)

/-- Decode the frames that `zeroRuns` makes. -/
def decode : ReadFn (RunDecoder σ) := fun n d =>
  match d with
  | .zeros len s => giveZeros n len s
  | .bytes s => giveBytes read n s
  | .between s =>
    let mark := read 1 s
    if mark.1 = [0] then
      let header := readExact read 8 mark.2
      header.1.elim ([], .between header.2) fun bytes =>
        giveZeros n (Bytes.ofLE bytes) header.2
    else if mark.1 = [1] then giveBytes read n mark.2
    else ([], .between mark.2)

end RunDecoder

/-- A frame of zeros is their number; every other frame is stored byte for byte. -/
def zeroRuns : FrameCodec where
  encode payload :=
    if payload = List.replicate payload.length 0 ∧ payload.length < 256 ^ 8 then
      0 :: Bytes.toLE 8 payload.length
    else 1 :: storedFrames.encode payload
  Decoder := RunDecoder
  start s := .between s
  read := RunDecoder.decode

section Lawful

variable {σ : Type} {read : ReadFn σ} {s : σ}

/-- Reading a frame that is stored byte for byte, at its end and before. -/
lemma storedFrames_read {frame tail : List UInt8}
    (h : Delivers read s (storedFrames.encode frame ++ tail)) (n : ℕ) :
    (frame = [] → (storedFrames.read read n s).1 = [] ∧
        Delivers read (storedFrames.read read n s).2 tail) ∧
      ∀ b more, frame = b :: more → (storedFrames.read read n s).1 = [b] ∧
        Delivers read (storedFrames.read read n s).2 (storedFrames.encode more ++ tail) := by
  refine ⟨?_, ?_⟩
  · rintro rfl
    obtain ⟨hzero, hnext⟩ := read_one h
    have hread : storedFrames.read read n s = ([], (read 1 s).2) := if_neg (by rw [hzero]; decide)
    rw [hread]
    exact ⟨rfl, hnext⟩
  · rintro b more rfl
    obtain ⟨hone, hnext⟩ := read_one h
    obtain ⟨hb, hnext'⟩ := read_one hnext
    have hread : storedFrames.read read n s = read 1 (read 1 s).2 := if_pos hone
    rw [hread]
    exact ⟨hb, hnext'⟩

/-- What is left of the frames. -/
def RunDecoder.Left (read : ReadFn σ) : RunDecoder σ → List (List UInt8) → Prop
  | .between s, frames => (∀ f ∈ frames, f ≠ []) ∧
      Delivers read s (frames.flatMap zeroRuns.encode)
  | .zeros len s, frames => ∃ rest, frames = List.replicate len 0 :: rest ∧
      (∀ f ∈ rest, f ≠ []) ∧ Delivers read s (rest.flatMap zeroRuns.encode)
  | .bytes s, frames => ∃ frame rest, frames = frame :: rest ∧ (∀ f ∈ rest, f ≠ []) ∧
      Delivers read s (storedFrames.encode frame ++ rest.flatMap zeroRuns.encode)

/-- One answer inside a frame that is not at its end. -/
def RunDecoder.Gives (read : ReadFn σ) (n : ℕ) (r : List UInt8 × RunDecoder σ)
    (frame : List UInt8) (frames : List (List UInt8)) : Prop :=
  ∃ more, frame = r.1 ++ more ∧ r.1.length ≤ n ∧ r.1 ≠ [] ∧ r.2.Left read (more :: frames)

lemma gives_giveZeros {n len : ℕ} (hn : 0 < n) (hlen : 0 < len) {frames : List (List UInt8)}
    (hne : ∀ f ∈ frames, f ≠ []) (h : Delivers read s (frames.flatMap zeroRuns.encode)) :
    RunDecoder.Gives read n (RunDecoder.giveZeros n len s) (List.replicate len 0) frames := by
  rw [RunDecoder.giveZeros, if_neg (Nat.pos_iff_ne_zero.mp hlen)]
  refine ⟨List.replicate (len - min n len) 0, ?_, ?_, ?_, frames, rfl, hne, h⟩
  · rw [List.replicate_append_replicate]
    congr 1
    omega
  · rw [List.length_replicate]
    exact min_le_left _ _
  · rw [ne_eq, List.replicate_eq_nil_iff]
    omega

lemma gives_giveBytes {n : ℕ} (hn : 0 < n) {frame : List UInt8} (hframe : frame ≠ [])
    {frames : List (List UInt8)} (hne : ∀ f ∈ frames, f ≠ [])
    (h : Delivers read s (storedFrames.encode frame ++ frames.flatMap zeroRuns.encode)) :
    RunDecoder.Gives read n (RunDecoder.giveBytes read n s) frame frames := by
  obtain ⟨b, more, rfl⟩ := List.exists_cons_of_ne_nil hframe
  obtain ⟨hb, hnext⟩ := (storedFrames_read h n).2 b more rfl
  simp only [RunDecoder.giveBytes, RunDecoder.Gives, hb, List.cons_ne_nil, if_false]
  exact ⟨more, rfl, hn, List.cons_ne_nil _ _, more, frames, rfl, hne, hnext⟩

lemma zeroRuns_lawful : zeroRuns.Lawful := by
  intro σ read s payloads hpayloads h
  refine ⟨RunDecoder.Left read, ⟨?_, ?_, ?_⟩, hpayloads, h⟩
  · intro d hd n hn
    cases d with
    | zeros | bytes => simp [RunDecoder.Left] at hd
    | between s =>
      obtain ⟨hne, hs⟩ := hd
      obtain ⟨rest, hrest, -, -, hnext⟩ := keeps_delivers read s _ hs 1 Nat.one_pos
      obtain ⟨hnil, rfl⟩ := List.append_eq_nil_iff.mp hrest.symm
      have hread : zeroRuns.read read n (.between s) = ([], .between (read 1 s).2) := by
        simp [zeroRuns, RunDecoder.decode, hnil]
      rw [hread]
      exact ⟨rfl, hne, hnext⟩
  · intro d frames hd n hn
    cases d with
    | between s => exact absurd rfl (hd.1 [] List.mem_cons_self)
    | zeros len s =>
      obtain ⟨rest, hframes, hne, hs⟩ := hd
      obtain ⟨hlen, rfl⟩ := List.cons.inj hframes
      obtain rfl : len = 0 := by simpa using congrArg List.length hlen.symm
      exact ⟨rfl, hne, hs⟩
    | bytes s =>
      obtain ⟨frame, rest, hframes, hne, hs⟩ := hd
      obtain ⟨rfl, rfl⟩ := List.cons.inj hframes
      obtain ⟨hnil, hnext⟩ := (storedFrames_read hs n).1 rfl
      have hread : zeroRuns.read read n (.bytes s) =
          ([], .between (storedFrames.read read n s).2) := by
        simp [zeroRuns, RunDecoder.decode, RunDecoder.giveBytes, hnil]
      rw [hread]
      exact ⟨rfl, hne, hnext⟩
  · intro d frame frames hframe hd n hn
    cases d with
    | zeros len s =>
      obtain ⟨rest, hframes, hne, hs⟩ := hd
      obtain ⟨rfl, rfl⟩ := List.cons.inj hframes
      refine gives_giveZeros hn ?_ hne hs
      exact Nat.pos_of_ne_zero fun hzero => hframe (hzero ▸ rfl)
    | bytes s =>
      obtain ⟨frame, rest, hframes, hne, hs⟩ := hd
      obtain ⟨rfl, rfl⟩ := List.cons.inj hframes
      exact gives_giveBytes hn hframe hne hs
    | between s =>
      obtain ⟨hne, hs⟩ := hd
      have hrest : ∀ f ∈ frames, f ≠ [] := fun f hf => hne f (List.mem_cons_of_mem _ hf)
      rw [List.flatMap_cons] at hs
      by_cases hzeros : frame = List.replicate frame.length 0 ∧ frame.length < 256 ^ 8
      · have hencode : zeroRuns.encode frame = 0 :: Bytes.toLE 8 frame.length := if_pos hzeros
        rw [hencode, List.cons_append] at hs
        obtain ⟨hmark, hnext⟩ := read_one hs
        obtain ⟨s', hheader, hs'⟩ := (keeps_delivers read).readExact hnext
        rw [Bytes.length_toLE] at hheader
        have hlen : Bytes.ofLE (Bytes.toLE 8 frame.length) = frame.length := by
          rw [Bytes.ofLE_toLE, Nat.mod_eq_of_lt hzeros.2]
        have hread : zeroRuns.read read n (.between s) =
            RunDecoder.giveZeros n frame.length s' := by
          simp [zeroRuns, RunDecoder.decode, hmark, hheader, hlen]
        have hgives := gives_giveZeros hn (List.length_pos_of_ne_nil hframe) hrest hs'
        rw [← hzeros.1] at hgives
        rw [hread]
        exact hgives
      · have hencode : zeroRuns.encode frame = 1 :: storedFrames.encode frame := if_neg hzeros
        rw [hencode, List.cons_append] at hs
        obtain ⟨hmark, hnext⟩ := read_one hs
        have hread : zeroRuns.read read n (.between s) =
            RunDecoder.giveBytes read n (read 1 s).2 := by
          simp [zeroRuns, RunDecoder.decode, hmark]
        rw [hread]
        exact gives_giveBytes hn hframe hrest hnext

end Lawful

/-! ## Numbers that are cut -/

/-- One thread writes the points of the root. -/
def writeOnce (points : List RawPoint) : List (Action Unit NodeCall (ℕ → ℕ)) :=
  [.invoke () (.write .root points), goOn () 0, goOn () 0, goOn () 0, comeBack () 0]

/-- It then reads them. -/
def readOnce : List (Action Unit NodeCall (ℕ → ℕ)) :=
  [.invoke () (.query .read .root), goOn () 0, goOn () 0, goOn () 0, comeBack () 0]

/-- Or it counts them. -/
def countOnce : List (Action Unit NodeCall (ℕ → ℕ)) :=
  [.invoke () (.query .count .root), goOn () 0, comeBack () 0]

/-- The history of a write and a query. -/
def askedOnce (points : List RawPoint) (q : NodeQuery) (r : NodeAnswer) :
    List (Event Unit NodeCall NodeAnswer) :=
  [.respond () (.query q .root) r, .invoke () (.query q .root),
    .respond () (.write .root points) .written, .invoke () (.write .root points)]

section AskedOnce

variable {points : List RawPoint} {q : NodeQuery} {r : NodeAnswer}

lemma askedOnce_apart : WritesApart (askedOnce points q r) := fun _ _ _ _ _ _ _ => rfl

lemma askedOnce_only {Fits : List RawPoint → Prop} (h : Fits points) :
    WritesOnly Fits (askedOnce points q r) := by
  intro t k v hmem
  simp only [askedOnce, List.mem_cons, List.not_mem_nil, or_false, reduceCtorEq, false_or,
    Event.invoke.injEq, MapCall.write.injEq, and_false] at hmem
  obtain ⟨-, -, rfl⟩ := hmem
  exact h

/-- With one thread a query has to be answered about the points that were written. -/
lemma answer_of_askedOnce
    (h : BehavesAsMap [] .written NodeQuery.answer (askedOnce points q r)) :
    r = q.answer points := by
  have hquiet : Quiet VoxelKey.root [.respond () (.write .root points) NodeAnswer.written,
      .invoke () (.write .root points)] ([] : List (Event Unit NodeCall NodeAnswer)) := by
    refine ⟨?_, fun t v hmem => by cases hmem⟩
    rintro t ⟨v, hv⟩
    cases hv
  have hanswer := h.queries [] [] _ () q .root r rfl (fun e he => by cases he) hquiet
  rw [hanswer]
  simp only [latest, if_true]

end AskedOnce

/-- A thread with the number 65536, which rayon does not have, appends to the pack of this number,
and reads from pack 0. -/
lemma run_packId : ∃ s, (System.start .new).run
    (PackedNodeStore.calls ⟨⟨storedFrames, .none, 0⟩, 65537, fun _ => some 65536⟩ 2)
      (writeOnce [default] ++ readOnce) = some s ∧
    s.history = askedOnce [default] .read (NodeFormat.read ⟨storedFrames, .none, 0⟩
      (readLimited LiveFile.readSome) ⟨42, ⟨fun _ => [], 0, fun _ => 0⟩⟩ 2) := ⟨_, rfl, rfl⟩

/-- A short batch of many points is written, and then counted. -/
lemma run_pointCount {fmt : NodeFormat} {points : List RawPoint}
    (hbuf : fmt.write points = some [0, 4, 0, 0, 0, 38, 0, 0, 0]) : ∃ s, (System.start .new).run
    (PackedNodeStore.calls ⟨fmt, 1, fun _ : Unit => none⟩ 2) (writeOnce points ++ countOnce) =
      some s ∧
    s.history = askedOnce points .count (.total (UInt32.ofNat points.length).toNat) := by
  have hstep : (PackedNodeStore.calls ⟨fmt, 1, fun _ : Unit => none⟩ 2).step () (fun _ => 0)
      (.write .root points) .called .new =
        some (.appending 0 9, PackedState.new.setPack 0
          (Pack.new.append () [0, 4, 0, 0, 0, 38, 0, 0, 0])) := by
    simp only [PackedNodeStore.calls, PackedNodeStore.step, hbuf, Option.bind_some]
    rfl
  obtain ⟨called, hcalled⟩ : ∃ s, s = System.mk PackedState.new (Function.update (fun _ => none) ()
    (some (MapCall.write VoxelKey.root points, PackedPhase.called)))
    [(.invoke () (.write .root points) : Event Unit NodeCall NodeAnswer)] := ⟨_, rfl⟩
  have hinvoke : (System.start .new).act (PackedNodeStore.calls ⟨fmt, 1, fun _ : Unit => none⟩ 2)
      (.invoke () (.write .root points)) = some called := hcalled ▸ rfl
  have hthread : called.threads () = some (.write .root points, .called) := hcalled ▸ rfl
  rw [show PackedState.new = called.shared by rw [hcalled]] at hstep
  rw [writeOnce, List.cons_append, run_cons hinvoke, List.cons_append, goOn,
    run_cons (act_step hthread hstep), hcalled]
  exact ⟨_, rfl, rfl⟩

/-- No batch is read from an empty file. -/
lemma read_empty : NodeFormat.read ⟨storedFrames, .none, 0⟩ (readLimited LiveFile.readSome)
    ⟨42, ⟨fun _ => [], 0, fun _ => 0⟩⟩ 2 = .points [] := by
  have hend : (readExact (readBuffered bufReaderCapacity (readLimited LiveFile.readSome)) 4
      ⟨[], ⟨42, ⟨fun _ => [], 0, fun _ => 0⟩⟩⟩).1 = none := by
    rw [readExact_of_nil (by decide) rfl]
  simp only [NodeFormat.read, readTempBatches, streamTempBatches, forEachPointInBatches, hend,
    Option.elim_none, Option.map_some, Option.elim_some]

/-- The batch of so many default points is all zeros, when the count keeps none of its bits. -/
lemma batchBytes_default {n : ℕ} (h : Bytes.toLE 4 n = List.replicate 4 0) :
    batchBytes (List.replicate n default) = List.replicate (4 + n * 38) 0 := by
  have hrecord : RawPoint.toRecord default = List.replicate 38 0 := by decide +kernel
  rw [batchBytes, List.length_replicate, h, List.flatMap_replicate, hrecord,
    List.flatten_replicate_replicate, List.replicate_append_replicate]

/-- Its frame has nine bytes. -/
lemma encode_default {n : ℕ} (h : n = 2 ^ 32) :
    zeroRuns.encode (batchBytes (List.replicate n default)) = [0, 4, 0, 0, 0, 38, 0, 0, 0] := by
  have hbatch : batchBytes (List.replicate n default) = List.replicate (4 + n * 38) 0 :=
    batchBytes_default (by rw [h]; decide +kernel)
  have hlen : (batchBytes (List.replicate n default)).length = 4 + 2 ^ 32 * 38 := by
    rw [hbatch, List.length_replicate, h]
  refine (if_pos ⟨by rw [hlen, hbatch, h], by rw [hlen]; decide +kernel⟩).trans ?_
  rw [hlen]
  decide +kernel

/-- With more packs a read can go to the wrong pack; and when a frame of more points is short, their
number is cut.  The first part is about the store alone: rayon has at most 65535 threads, so the
converter never makes that many packs. -/
theorem nodeNumbers_cut :
    (∃ s, (System.start .new).run
        (PackedNodeStore.calls ⟨⟨storedFrames, .none, 0⟩, 65537, fun _ => some 65536⟩ 2)
          (writeOnce [default] ++ readOnce) = some s ∧
      WritesApart s.history ∧ WritesOnly (NodeFormat.Fits ⟨storedFrames, .none, 0⟩) s.history ∧
      ¬ BehavesAsMap [] .written NodeQuery.answer s.history) ∧
    zeroRuns.Lawful ∧
    ∃ s, (System.start .new).run
        (PackedNodeStore.calls ⟨⟨zeroRuns, .lz4, 0⟩, 1, fun _ => none⟩ 2)
          (writeOnce (List.replicate (2 ^ 32) default) ++ countOnce) = some s ∧
      WritesApart s.history ∧
      WritesOnly (fun points => Carries 0 points ∧
        (NodeFormat.frame ⟨zeroRuns, .lz4, 0⟩ points).length < 2 ^ 32) s.history ∧
      ¬ BehavesAsMap [] .written NodeQuery.answer s.history := by
  refine ⟨?_, zeroRuns_lawful, ?_⟩
  · obtain ⟨s, hrun, hs⟩ := run_packId
    refine ⟨s, hrun, hs ▸ askedOnce_apart, hs ▸ askedOnce_only ⟨?_, ?_, ?_⟩, fun h => ?_⟩
    · decide
    · decide +kernel
    · decide
    · rw [hs, read_empty] at h
      exact absurd (NodeAnswer.points.inj (answer_of_askedOnce h)) (by decide)
  · obtain ⟨n, hn⟩ : ∃ n, n = 2 ^ 32 := ⟨_, rfl⟩
    have hcarries : Carries 0 (List.replicate n default) := by
      intro p hp
      rw [List.eq_of_mem_replicate hp]
      rfl
    have hframe : NodeFormat.frame ⟨zeroRuns, .lz4, 0⟩ (List.replicate n default) =
        [0, 4, 0, 0, 0, 38, 0, 0, 0] := encode_default hn
    have hbuf : NodeFormat.write ⟨zeroRuns, .lz4, 0⟩ (List.replicate n default) =
        some [0, 4, 0, 0, 0, 38, 0, 0, 0] :=
      (writeTempBatch_eq zeroRuns .lz4 hcarries).trans (congrArg some hframe)
    rw [← hn]
    obtain ⟨s, hrun, hs⟩ := run_pointCount hbuf
    refine ⟨s, hrun, hs ▸ askedOnce_apart, hs ▸ askedOnce_only ⟨hcarries, ?_⟩, fun h => ?_⟩
    · rw [hframe, hn]
      decide
    · rw [hs] at h
      have htotal := NodeAnswer.total.inj (answer_of_askedOnce h)
      rw [List.length_replicate, hn] at htotal
      exact absurd htotal (by decide +kernel)

end CopcConverter
