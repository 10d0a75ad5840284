import CopcConverter.Foundations.Lists
import CopcConverter.Foundations.Scatter

/-!
# Reading many ranges

A reader of a remote file asks for many small ranges at a time.  `HttpSource::read_ranges` sorts the
ranges, merges those that are close to each other into one request, fetches the merged requests with
a few of them under way at a time, and cuts the answers into the ranges again.  The answers come in
any order and are put into the places of their requests; the first failure ends the reading.

Every range gets its own bytes, whether ranges are nested, touch each other or are asked for twice,
and whatever order the answers come in; merged requests are more than the gap apart.  A request
covers its ranges: it starts where the first one does and ends where one of them does.  Sums wrap
around, as they do in a release build.
-/

namespace CopcConverter

open Scatter

/-! ## Merging -/

/-- A range that is asked for, and its place among the ranges. -/
structure RangePart where
  index : ℕ
  offset : UInt64
  length : UInt64

/-- A merged request with the ranges it answers. -/
structure Merged where
  offset : UInt64
  length : UInt64
  parts : List RangePart

/-- Ranges at most this far apart are fetched together. -/
def mergeGap : UInt64 := 1024

/-- The ranges by offset; ranges of one offset stay in their order. -/
def sortedParts (ranges : List (UInt64 × UInt64)) : List RangePart :=
  (ranges.zipIdx.map fun e => ⟨e.2, e.1.1, e.1.2⟩).mergeSort fun p q => decide (p.offset ≤ q.offset)

/-- A request that is made to hold one more range. -/
def Merged.extend (last : Merged) (part : RangePart) : Merged :=
  let lastEnd := last.offset + last.length
  let newEnd := max (part.offset + part.length) lastEnd
  { last with length := newEnd - last.offset, parts := last.parts ++ [part] }

/-- Add the next range to the last request, or make it a request of its own. -/
def mergeStep (merged : List Merged) (part : RangePart) : List Merged :=
  match merged.getLast? with
  | some last =>
    let lastEnd := last.offset + last.length
    if part.offset ≤ lastEnd + mergeGap then merged.dropLast ++ [last.extend part]
    else merged ++ [⟨part.offset, part.length, [part]⟩]
  | none => merged ++ [⟨part.offset, part.length, [part]⟩]

/-- The merged requests. -/
def mergeRanges (ranges : List (UInt64 × UInt64)) : List Merged :=
  (sortedParts ranges).foldl mergeStep []

/-! ## Fetching and cutting -/

/-- How reading fails: a request fails, or an answer is cut outside of its bytes. -/
inductive ReadFailure (ε : Type) where
  | request (e : ε)
  | outOfRange

section Read

variable {ε : Type} (readRange : UInt64 → UInt64 → Except ε (List UInt8))

/-- Fetch the requests and put each answer where its request is; the first failure ends it. -/
def fetchMerged (merged : List Merged) (completion : Completion merged.zipIdx) :
    Except (ReadFailure ε) (List (List UInt8)) :=
  completion.finished.foldlM
    (fun fetched e => ((readRange e.1.offset e.1.length).mapError .request).map (fetched.set e.2))
    (List.replicate merged.length [])

/-- The bytes between two positions. -/
def cut (data : List UInt8) (start stop : ℕ) : Option (List UInt8) :=
  if start ≤ stop ∧ stop ≤ data.length then some ((data.take stop).drop start) else none

/-- Cut the ranges of a request out of its answer. -/
def placeParts (results : List (List UInt8)) (e : Merged × List UInt8) :
    Except (ReadFailure ε) (List (List UInt8)) :=
  e.1.parts.foldlM (fun results part =>
    let start := part.offset - e.1.offset
    let stop := start + part.length
    (cut e.2 start.toNat stop.toNat).elim (.error .outOfRange) fun bytes =>
      .ok (results.set part.index bytes)) results

/-- Read some ranges, given the order in which the merged requests are finished. -/
def readRanges (ranges : List (UInt64 × UInt64))
    (completion : Completion (mergeRanges ranges).zipIdx) :
    Except (ReadFailure ε) (List (List UInt8)) :=
  (fetchMerged readRange (mergeRanges ranges) completion).bind fun fetched =>
    ((mergeRanges ranges).zip fetched).foldlM placeParts (List.replicate ranges.length [])

end Read

/-! ## What a merged request covers -/

/-- The position after a range. -/
def RangePart.stop (p : RangePart) : ℕ := p.offset.toNat + p.length.toNat

/-- The position after a request. -/
def Merged.stop (m : Merged) : ℕ := m.offset.toNat + m.length.toNat

/-- A request starts where one of its ranges does, stops where one of them does, and holds them
all. -/
structure Merged.Covers (m : Merged) : Prop where
  start : ∃ p ∈ m.parts, p.offset = m.offset
  stop : ∃ p ∈ m.parts, p.stop = m.stop
  parts : ∀ p ∈ m.parts, m.offset.toNat ≤ p.offset.toNat ∧ p.stop ≤ m.stop

/-- The requests answer the ranges seen so far, in their order. -/
structure Merges (seen : List RangePart) (merged : List Merged) : Prop where
  parts : merged.flatMap Merged.parts = seen
  covers : ∀ m ∈ merged, m.Covers

lemma covers_single (part : RangePart) : Merged.Covers ⟨part.offset, part.length, [part]⟩ where
  start := ⟨part, List.mem_singleton_self _, rfl⟩
  stop := ⟨part, List.mem_singleton_self _, rfl⟩
  parts p hp := by
    obtain rfl := List.mem_singleton.mp hp
    exact ⟨le_rfl, le_rfl⟩

/-- The sum of two words that does not overflow. -/
lemma toNat_add_of_lt {a b : UInt64} (h : a.toNat + b.toNat < 2 ^ 64) :
    (a + b).toNat = a.toNat + b.toNat := by
  rw [UInt64.toNat_add, Nat.mod_eq_of_lt h]

lemma toNat_max (a b : UInt64) : (max a b).toNat = max a.toNat b.toNat := by
  change (if a ≤ b then b else a).toNat = _
  split_ifs with h
  · exact (max_eq_right (UInt64.le_iff_toNat_le.mp h)).symm
  · exact (max_eq_left (Nat.le_of_not_le fun hle => h (UInt64.le_iff_toNat_le.mpr hle))).symm

/-- A request that holds one more range stops at the later of the two stops. -/
lemma Merged.stop_extend {last : Merged} {part : RangePart} (hlast : last.stop < 2 ^ 64)
    (hpart : part.stop < 2 ^ 64) : (last.extend part).stop = max part.stop last.stop := by
  have hend : (max (part.offset + part.length) (last.offset + last.length)).toNat =
      max part.stop last.stop := by
    rw [toNat_max, toNat_add_of_lt hpart, toNat_add_of_lt hlast]
    rfl
  have hle : last.offset ≤ max (part.offset + part.length) (last.offset + last.length) := by
    rw [UInt64.le_iff_toNat_le, hend]
    exact (Nat.le_add_right _ _).trans (le_max_right _ _)
  change last.offset.toNat + (max (part.offset + part.length) (last.offset + last.length) -
    last.offset).toNat = _
  rw [UInt64.toNat_sub_of_le _ _ hle, hend]
  have hstop : last.offset.toNat ≤ max part.stop last.stop :=
    (Nat.le_add_right _ _).trans (le_max_right _ _)
  omega

/-- A request that holds one more range covers it as well. -/
lemma Merged.Covers.extend {last : Merged} {part : RangePart} (h : last.Covers)
    (hlast : last.stop < 2 ^ 64) (hpart : part.stop < 2 ^ 64)
    (horder : last.offset.toNat ≤ part.offset.toNat) : (last.extend part).Covers := by
  have hstop := Merged.stop_extend hlast hpart
  have hmem : ∀ p, p ∈ (last.extend part).parts ↔ p ∈ last.parts ∨ p = part := fun p => by
    rw [Merged.extend, List.mem_append, List.mem_singleton]
  refine ⟨?_, ?_, fun p hp => ?_⟩
  · obtain ⟨p, hp, hoffset⟩ := h.start
    exact ⟨p, (hmem p).mpr (Or.inl hp), hoffset⟩
  · rcases max_choice part.stop last.stop with hmax | hmax
    · exact ⟨part, (hmem part).mpr (Or.inr rfl), by rw [hstop, hmax]⟩
    · obtain ⟨p, hp, heq⟩ := h.stop
      exact ⟨p, (hmem p).mpr (Or.inl hp), by rw [hstop, hmax, heq]⟩
  · rw [hstop]
    rcases (hmem p).mp hp with hold | rfl
    · obtain ⟨hge, hle⟩ := h.parts p hold
      exact ⟨hge, hle.trans (le_max_right _ _)⟩
    · exact ⟨horder, le_max_left _ _⟩

/-- The next range is merged into the last request, or it becomes a request of its own. -/
lemma mergeStep_cases (merged : List Merged) (part : RangePart) :
    (∃ front last, merged = front ++ [last] ∧
        part.offset ≤ last.offset + last.length + mergeGap ∧
        mergeStep merged part = front ++ [last.extend part]) ∨
      mergeStep merged part = merged ++ [⟨part.offset, part.length, [part]⟩] ∧
        ∀ last, merged.getLast? = some last →
          ¬ part.offset ≤ last.offset + last.length + mergeGap := by
  unfold mergeStep
  cases hlast : merged.getLast? with
  | none => exact Or.inr ⟨rfl, fun last h => by cases h⟩
  | some last =>
    simp only
    split_ifs with hnear
    · exact Or.inl ⟨merged.dropLast, last, (List.dropLast_append_getLast? last hlast).symm, hnear,
        rfl⟩
    · refine Or.inr ⟨rfl, fun last' h => ?_⟩
      obtain rfl := Option.some.inj h
      exact hnear

/-- One more range in the order of the offsets. -/
lemma Merges.step {seen : List RangePart} {merged : List Merged} (h : Merges seen merged)
    {part : RangePart} (hseen : ∀ p ∈ seen, p.stop < 2 ^ 64 ∧ p.offset ≤ part.offset)
    (hpart : part.stop < 2 ^ 64) : Merges (seen ++ [part]) (mergeStep merged part) := by
  obtain ⟨hparts, hcovers⟩ := h
  rcases mergeStep_cases merged part with ⟨front, last, rfl, -, hstep⟩ | ⟨hstep, -⟩
  · rw [hstep]
    have hlast := hcovers last (List.mem_append_right _ (List.mem_singleton_self _))
    have hsub : ∀ p ∈ last.parts, p ∈ seen := fun p hp => by
      rw [← hparts]
      exact List.mem_flatMap.mpr ⟨last, List.mem_append_right _ (List.mem_singleton_self _), hp⟩
    constructor
    · rw [List.flatMap_append, List.flatMap_singleton] at hparts ⊢
      rw [← hparts, List.append_assoc]
      rfl
    · intro m hm
      rcases List.mem_append.mp hm with hm | hm
      · exact hcovers m (List.mem_append_left _ hm)
      · obtain rfl := List.mem_singleton.mp hm
        obtain ⟨p, hp, hoffset⟩ := hlast.start
        obtain ⟨q, hq, hstop⟩ := hlast.stop
        apply hlast.extend (hstop ▸ (hseen q (hsub q hq)).1) hpart
        rw [← hoffset]
        exact UInt64.le_iff_toNat_le.mp (hseen p (hsub p hp)).2
  · rw [hstep]
    constructor
    · rw [List.flatMap_append, hparts, List.flatMap_singleton]
    · intro m hm
      rcases List.mem_append.mp hm with hm | hm
      · exact hcovers m hm
      · obtain rfl := List.mem_singleton.mp hm
        exact covers_single part

/-- More than the gap apart. -/
def Apart (m m' : Merged) : Prop := m.stop + mergeGap.toNat < m'.offset.toNat

instance : DecidableRel Apart := fun m m' =>
  inferInstanceAs (Decidable (m.stop + mergeGap.toNat < m'.offset.toNat))

/-- One more range leaves the requests apart, when even the gap after a range does not overflow. -/
lemma Merges.apart_step {seen : List RangePart} {merged : List Merged} (h : Merges seen merged)
    {part : RangePart} (hseen : ∀ p ∈ seen, p.stop + mergeGap.toNat < 2 ^ 64)
    (hapart : merged.Pairwise Apart) : (mergeStep merged part).Pairwise Apart := by
  rcases mergeStep_cases merged part with ⟨front, last, rfl, -, hstep⟩ | ⟨hstep, hfar⟩
  · rw [hstep]
    obtain ⟨hfront, -, hcross⟩ := List.pairwise_append.mp hapart
    refine List.pairwise_append.mpr ⟨hfront, List.pairwise_singleton _ _, fun m hm m' hm' => ?_⟩
    obtain rfl := List.mem_singleton.mp hm'
    exact hcross m hm last (List.mem_singleton_self _)
  · rw [hstep]
    refine List.pairwise_append.mpr ⟨hapart, List.pairwise_singleton _ _, fun m hm m' hm' => ?_⟩
    obtain rfl := List.mem_singleton.mp hm'
    obtain ⟨front, last, rfl⟩ : ∃ front last, merged = front ++ [last] :=
      ⟨merged.dropLast, merged.getLast (List.ne_nil_of_mem hm),
        (List.dropLast_append_getLast (List.ne_nil_of_mem hm)).symm⟩
    have hmem := List.mem_append_right front (List.mem_singleton_self last)
    -- the last request is apart from the new one, and the others are before the last one
    obtain ⟨q, hq, hstop⟩ := (h.covers last hmem).stop
    have hfit := hseen q (by
      rw [← h.parts]
      exact List.mem_flatMap.mpr ⟨last, hmem, hq⟩)
    rw [hstop] at hfit
    have hend : (last.offset + last.length).toNat = last.stop :=
      toNat_add_of_lt (Nat.lt_of_le_of_lt (Nat.le_add_right _ _) hfit)
    have hlast : last.stop + mergeGap.toNat < part.offset.toNat := by
      have hnear := hfar last (by rw [List.getLast?_append, List.getLast?_singleton]; rfl)
      rw [UInt64.le_iff_toNat_le, toNat_add_of_lt (by rwa [hend]), hend] at hnear
      exact not_le.mp hnear
    rcases List.mem_append.mp hm with hm | hm
    · obtain ⟨-, -, hcross⟩ := List.pairwise_append.mp hapart
      have hbefore : m.stop + mergeGap.toNat < last.offset.toNat :=
        hcross m hm last (List.mem_singleton_self _)
      have hstart : last.offset.toNat ≤ last.stop := Nat.le_add_right _ _
      change m.stop + mergeGap.toNat < part.offset.toNat
      omega
    · obtain rfl := List.mem_singleton.mp hm
      exact hlast

/-- All ranges in the order of their offsets. -/
lemma Merges.run {seen rest : List RangePart} {merged : List Merged} (h : Merges seen merged)
    (hsorted : (seen ++ rest).Pairwise fun p q => p.offset ≤ q.offset)
    (hfit : ∀ p ∈ seen ++ rest, p.stop < 2 ^ 64) :
    Merges (seen ++ rest) (rest.foldl mergeStep merged) ∧
      ((∀ p ∈ seen ++ rest, p.stop + mergeGap.toNat < 2 ^ 64) → merged.Pairwise Apart →
        (rest.foldl mergeStep merged).Pairwise Apart) := by
  induction rest generalizing seen merged with
  | nil =>
    rw [List.append_nil]
    exact ⟨h, fun _ hapart => hapart⟩
  | cons part rest ih =>
    obtain ⟨-, -, hcross⟩ := List.pairwise_append.mp hsorted
    have hstep : Merges (seen ++ [part]) (mergeStep merged part) :=
      h.step (fun p hp => ⟨hfit p (List.mem_append_left _ hp), hcross p hp part List.mem_cons_self⟩)
        (hfit part (List.mem_append_right _ List.mem_cons_self))
    rw [List.append_cons] at hsorted hfit ⊢
    obtain ⟨hrun, hapart⟩ := ih hstep hsorted hfit
    refine ⟨hrun, fun hgap hpair => hapart hgap (h.apart_step (fun p hp => ?_) hpair)⟩
    exact hgap p (List.mem_append_left _ (List.mem_append_left _ hp))

/-! ## The requests of a list of ranges -/

/-- The parts are the ranges with their places. -/
lemma mem_sortedParts {ranges : List (UInt64 × UInt64)} {p : RangePart} :
    p ∈ sortedParts ranges ↔ ranges[p.index]? = some (p.offset, p.length) := by
  rw [sortedParts, List.mem_mergeSort, List.mem_map]
  constructor
  · rintro ⟨⟨⟨o, l⟩, i⟩, he, rfl⟩
    exact List.mem_zipIdx_iff_getElem?.mp he
  · intro h
    exact ⟨((p.offset, p.length), p.index), List.mem_zipIdx_iff_getElem?.mpr h, rfl⟩

lemma pairwise_sortedParts (ranges : List (UInt64 × UInt64)) :
    (sortedParts ranges).Pairwise fun p q => p.offset ≤ q.offset :=
  Lists.pairwise_mergeSort_by (fun p q : RangePart => p.offset ≤ q.offset)
    (fun _ _ _ => UInt64.le_trans) (fun _ _ => UInt64.le_total _ _) _

/-- The requests answer the ranges, and they are apart. -/
lemma mergeRanges_spec {ranges : List (UInt64 × UInt64)}
    (hfit : ∀ r ∈ ranges, r.1.toNat + r.2.toNat < 2 ^ 64) :
    Merges (sortedParts ranges) (mergeRanges ranges) ∧
      ((∀ r ∈ ranges, r.1.toNat + r.2.toNat + mergeGap.toNat < 2 ^ 64) →
        (mergeRanges ranges).Pairwise Apart) := by
  have hmem : ∀ p ∈ [] ++ sortedParts ranges, (p.offset, p.length) ∈ ranges := fun p hp =>
    List.mem_of_getElem? (mem_sortedParts.mp hp)
  have hempty : Merges [] [] := ⟨rfl, fun m hm => absurd hm List.not_mem_nil⟩
  obtain ⟨hrun, hapart⟩ := @Merges.run [] (sortedParts ranges) [] hempty
    (pairwise_sortedParts ranges) fun p hp => hfit _ (hmem p hp)
  exact ⟨hrun, fun hgap => hapart (fun p hp => hgap _ (hmem p hp)) List.Pairwise.nil⟩

/-! ## The bytes of the ranges -/

/-- The bytes of a source from an offset on. -/
def bytesAt (source : ℕ → UInt8) (offset length : ℕ) : List UInt8 :=
  (List.range' offset length).map source

lemma length_bytesAt (source : ℕ → UInt8) (offset length : ℕ) :
    (bytesAt source offset length).length = length := by
  rw [bytesAt, List.length_map, List.length_range']

/-- Bytes inside of some bytes. -/
lemma cut_bytesAt (source : ℕ → UInt8) {offset length start width : ℕ}
    (h : start + width ≤ length) :
    cut (bytesAt source offset length) start (start + width) =
      some (bytesAt source (offset + start) width) := by
  rw [cut, if_pos ⟨Nat.le_add_right _ _, by rwa [length_bytesAt]⟩]
  have htake : (bytesAt source offset length).take (start + width) =
      bytesAt source offset (start + width) := by
    rw [bytesAt, bytesAt, ← List.map_take, List.take_range'_of_length_ge h]
  have hdrop : (bytesAt source offset (start + width)).drop start =
      bytesAt source (offset + start) width := by
    rw [bytesAt, bytesAt, ← List.map_drop, List.drop_range', Nat.add_sub_cancel_left, mul_one]
  rw [htake, hdrop]

section Spec

variable {ε : Type} {readRange : UInt64 → UInt64 → Except ε (List UInt8)} {source : ℕ → UInt8}
  {ranges : List (UInt64 × UInt64)}

/-- When every request is answered with its bytes, each answer is in the place of its request. -/
lemma fetchMerged_eq {merged : List Merged} (completion : Completion merged.zipIdx)
    (hread : ∀ m ∈ merged, readRange m.offset m.length =
      .ok (bytesAt source m.offset.toNat m.length.toNat)) :
    fetchMerged readRange merged completion =
      .ok (merged.map fun m => bytesAt source m.offset.toNat m.length.toNat) := by
  unfold fetchMerged
  rw [@foldlM_eq_scatter _ _ _ _
    (fun e : Merged × ℕ => (e.2, bytesAt source e.1.offset.toNat e.1.length.toNat)) _
    fun e he slots => by
      rw [hread e.1 (List.mem_of_getElem? (completion.getElem?_of_mem he))]; rfl]
  refine congrArg Except.ok (scatter_eq ?_ (fun w hw => ?_) fun i hi => ?_)
  · rw [List.length_replicate, List.length_map]
  · obtain ⟨e, he, rfl⟩ := List.mem_map.mp hw
    rw [List.getElem?_map, completion.getElem?_of_mem he, Option.map_some]
  · rw [List.length_map] at hi
    obtain ⟨e, he, hei⟩ := completion.exists_of_lt hi
    exact ⟨_, List.mem_map_of_mem he, hei⟩

/-- The ranges of a request are cut out of its bytes. -/
lemma placeParts_eq {m : Merged} (hcovers : m.Covers) (hfit : m.stop < 2 ^ 64)
    (results : List (List UInt8)) :
    placeParts (ε := ε) results (m, bytesAt source m.offset.toNat m.length.toNat) =
      .ok (scatter results (m.parts.map fun p =>
        (p.index, bytesAt source p.offset.toNat p.length.toNat))) := by
  unfold placeParts
  refine foldlM_eq_scatter (fun p hp slots => ?_) results
  obtain ⟨hge, hle⟩ := hcovers.parts p hp
  have hstart : (p.offset - m.offset).toNat = p.offset.toNat - m.offset.toNat :=
    UInt64.toNat_sub_of_le _ _ (UInt64.le_iff_toNat_le.mpr hge)
  rw [RangePart.stop] at hle
  have hwide : m.stop = m.offset.toNat + m.length.toNat := rfl
  have hstop : (p.offset - m.offset + p.length).toNat =
      p.offset.toNat - m.offset.toNat + p.length.toNat := by
    rw [toNat_add_of_lt, hstart]
    rw [hstart]
    omega
  simp only
  rw [hstart, hstop, cut_bytesAt _ (by omega), Nat.add_sub_cancel' hge]
  rfl

/-- All requests are cut into the ranges, each in its place. -/
lemma placeAll_eq (hfit : ∀ r ∈ ranges, r.1.toNat + r.2.toNat < 2 ^ 64) :
    ((mergeRanges ranges).map fun m => (m, bytesAt source m.offset.toNat m.length.toNat)).foldlM
        (placeParts (ε := ε)) (List.replicate ranges.length []) =
      .ok (ranges.map fun r => bytesAt source r.1.toNat r.2.toNat) := by
  obtain ⟨⟨hparts, hcovers⟩, -⟩ := mergeRanges_spec hfit
  have hmem : ∀ m ∈ mergeRanges ranges, ∀ p ∈ m.parts,
      ranges[p.index]? = some (p.offset, p.length) :=
    fun m hm p hp => mem_sortedParts.mp (hparts ▸ List.mem_flatMap.mpr ⟨m, hm, hp⟩)
  have hstop : ∀ m ∈ mergeRanges ranges, m.stop < 2 ^ 64 := fun m hm => by
    obtain ⟨p, hp, heq⟩ := (hcovers m hm).stop
    rw [← heq]
    exact hfit _ (List.mem_of_getElem? (hmem m hm p hp))
  rw [@foldlM_scatter _ _ _ _ (fun e : Merged × List UInt8 => e.1.parts.map fun p =>
    (p.index, bytesAt source p.offset.toNat p.length.toNat)) _ fun e he results => by
      obtain ⟨m, hm, rfl⟩ := List.mem_map.mp he
      exact placeParts_eq (hcovers m hm) (hstop m hm) results]
  refine congrArg Except.ok (scatter_eq ?_ (fun w hw => ?_) fun i hi => ?_)
  · rw [List.length_replicate, List.length_map]
  · obtain ⟨e, he, hw⟩ := List.mem_flatMap.mp hw
    obtain ⟨m, hm, rfl⟩ := List.mem_map.mp he
    obtain ⟨p, hp, rfl⟩ := List.mem_map.mp hw
    rw [List.getElem?_map, hmem m hm p hp, Option.map_some]
  · rw [List.length_map] at hi
    have hpart : (⟨i, ranges[i].1, ranges[i].2⟩ : RangePart) ∈ sortedParts ranges :=
      mem_sortedParts.mpr (List.getElem?_eq_getElem hi)
    rw [← hparts] at hpart
    obtain ⟨m, hm, hp⟩ := List.mem_flatMap.mp hpart
    exact ⟨_, List.mem_flatMap.mpr ⟨_, List.mem_map_of_mem hm, List.mem_map_of_mem hp⟩, rfl⟩

/-- **Every range gets its own bytes.**  When every request that is made is answered with its bytes,
then in whatever order the answers come, the result has the bytes of every range in the place of
the range.  As long as even the gap after a range stays within 64 bits, the requests are more than
the gap apart from each other. -/
theorem readRanges_spec (completion : Completion (mergeRanges ranges).zipIdx)
    (hfit : ∀ r ∈ ranges, r.1.toNat + r.2.toNat < 2 ^ 64)
    (hread : ∀ m ∈ mergeRanges ranges, readRange m.offset m.length =
      .ok (bytesAt source m.offset.toNat m.length.toNat)) :
    readRanges readRange ranges completion =
        .ok (ranges.map fun r => bytesAt source r.1.toNat r.2.toNat) ∧
      ((∀ r ∈ ranges, r.1.toNat + r.2.toNat + mergeGap.toNat < 2 ^ 64) →
        (mergeRanges ranges).Pairwise Apart) := by
  refine ⟨?_, (mergeRanges_spec hfit).2⟩
  have hpairs : (mergeRanges ranges).zip
      ((mergeRanges ranges).map fun m => bytesAt source m.offset.toNat m.length.toNat) =
        (mergeRanges ranges).map fun m => (m, bytesAt source m.offset.toNat m.length.toNat) := by
    have hzip := @List.zip_map' _ _ _ id
      (fun m : Merged => bytesAt source m.offset.toNat m.length.toNat) (mergeRanges ranges)
    rwa [List.map_id] at hzip
  unfold readRanges
  rw [fetchMerged_eq completion hread]
  change ((mergeRanges ranges).zip _).foldlM _ _ = _
  rw [hpairs, placeAll_eq hfit]

/-- Nested, touching, repeated and distant ranges. -/
def nestedRanges : List (UInt64 × UInt64) := [(100, 10), (0, 5), (2000, 3), (100, 10), (102, 1)]

lemma nestedRanges_fit : ∀ r ∈ nestedRanges, r.1.toNat + r.2.toNat + mergeGap.toNat < 2 ^ 64 := by
  intro r hr
  simp only [nestedRanges, List.mem_cons, List.not_mem_nil, or_false] at hr
  rcases hr with rfl | rfl | rfl | rfl | rfl <;> decide

/-- The ranges of the example, read from a source of consecutive bytes; the last request is answered
first. -/
theorem readRanges_spec_nested :
    readRanges (fun o l => .ok (ε := Unit) (bytesAt UInt8.ofNat o.toNat l.toNat)) nestedRanges
      (.reversed _) = .ok (nestedRanges.map fun r => bytesAt UInt8.ofNat r.1.toNat r.2.toNat) ∧
      (mergeRanges nestedRanges).Pairwise Apart := by
  obtain ⟨hread, hapart⟩ := @readRanges_spec Unit
    (fun o l => .ok (bytesAt UInt8.ofNat o.toNat l.toNat)) UInt8.ofNat nestedRanges (.reversed _)
    (fun r hr => Nat.lt_of_le_of_lt (Nat.le_add_right _ _) (nestedRanges_fit r hr)) fun _ _ => rfl
  exact ⟨hread, hapart nestedRanges_fit⟩

end Spec

end CopcConverter
