import CopcConverter.Writer.RoundTrip
import CopcConverter.Writer.TimeRanges

/-!
# Time queries

What the temporal index is for: a reader that wants the points of a window of GPS times finds the
index among the extended records, follows the pointers whose ranges meet the window, takes the nodes
whose samples do, and decompresses only the chunks of these nodes.  It then keeps the points in the
window.

The reader is the one that the inspection tool and the format suggest, written down here over the
bytes of the file.  Nothing is missed by what it skips: the samples of a node begin with its first
time and end with its last one, the range of a pointer covers all times below it, and so a node that
has a point in the window is found.  Each node is found once, and the reader gets exactly the points
of the file that are in the window.
-/

namespace CopcConverter

open Bytes LevelTree PageBytes PageTree

/-! ## Windows -/

/-- A window of GPS times, with both ends. -/
structure TimeWindow where
  start : F64
  stop : F64

namespace TimeWindow

variable (w : TimeWindow)

/-- A range of times meets the window. -/
def meets (first last : F64) : Bool := w.start.le last && first.le w.stop

/-- A point is in the window. -/
def holds (p : RawPoint) : Bool := w.meets (timeOf p) (timeOf p)

/-- The page of a subtree is worth reading. -/
def meetsSubtree (t : SubtreeTimes) : Bool := w.meets t.timeMin t.timeMax

/-- A node is worth reading. -/
def meetsEntry (e : TemporalIndexEntry) : Bool :=
  match e.samples.head?, e.samples.getLast? with
  | some first, some last => w.meets first last
  | _, _ => false

end TimeWindow

/-! ## The reader -/

namespace CopcHeader

variable (header : CopcHeader)

/-- The nodes that may have points in a window. -/
def timeEntries (file : List UInt8) (w : TimeWindow) (fuel : ℕ) :
    Option (List TemporalIndexEntry) := do
  let (start, length) ← findEvlr file (ascii "copc_temporal") 1000 header.numEvlrs header.evlrStart
  let payload := slice file start length
  let (index, _) ← TemporalIndexHeader.read payload
  let found ← browse (readPage parseTemporal payload (UInt64.ofNat start)) w.meetsSubtree fuel
    ⟨index.rootPageOffset, index.rootPageSize.toNat⟩
  some (found.filter w.meetsEntry)

/-- The points of a window, from the chunks of the nodes that may have some. -/
def pointsWithin (laz : LazCodec) (file : List UInt8) (w : TimeWindow) (fuel : ℕ) :
    Option (List RawPoint) := do
  let es ← header.timeEntries file w fuel
  let pts ← es.mapM fun e => (header.lookup file e.key fuel).bind (header.pointsOf laz file)
  some (pts.flatten.filter w.holds)

end CopcHeader

/-! ## Ranges that meet a window -/

namespace TimeWindow

variable {w : TimeWindow} {store : Store}

/-- A wider range meets the window as well. -/
lemma meets_mono {a b c d : F64} (hc : c.isNaN = false) (hd : d.isNaN = false)
    (hca : c.key ≤ a.key) (hbd : b.key ≤ d.key) (h : w.meets a b = true) :
    w.meets c d = true := by
  rw [meets, Bool.and_eq_true, F64.le_iff, F64.le_iff] at h ⊢
  exact ⟨⟨h.1.1, hd, h.1.2.2.trans hbd⟩, hc, h.2.2.1, hca.trans h.2.2.2⟩

/-- A node with a point in the window is worth reading. -/
lemma meetsEntry_of_holds {e : TemporalIndexEntry} (he : EntrySound store e) {p : RawPoint}
    (hp : p ∈ store e.key) (h : w.holds p = true) : w.meetsEntry e = true := by
  obtain ⟨hsound, hnan⟩ := he
  obtain ⟨first, hfirst, hleast⟩ := hsound.first
  obtain ⟨last, hlast, hgreatest⟩ := hsound.last
  rw [meetsEntry, hfirst, hlast]
  exact meets_mono (hnan first (List.mem_of_head? hfirst)) (hnan last (List.mem_of_getLast? hlast))
    (hleast.2 ⟨p, hp, rfl⟩) (hgreatest.2 ⟨p, hp, rfl⟩) h

/-- The page of a subtree with a node that is worth reading is worth reading. -/
lemma meetsSubtree_of_meetsEntry {e : TemporalIndexEntry} (he : EntrySound store e) {times : Set ℤ}
    (hsub : nodeTimes store e.key ⊆ times) {t : SubtreeTimes}
    (ht : Clamped times (t.timeMin, t.timeMax)) (h : w.meetsEntry e = true) :
    w.meetsSubtree t = true := by
  obtain ⟨first, hfirst, hleast⟩ := he.1.first
  obtain ⟨last, hlast, hgreatest⟩ := he.1.last
  rw [meetsEntry, hfirst, hlast] at h
  exact meets_mono ht.min_number ht.max_number
    (ht.least.2 (Set.mem_insert_of_mem _ (hsub hleast.1)))
    (ht.greatest.2 (Set.mem_insert_of_mem _ (hsub hgreatest.1))) h

end TimeWindow

/-! ## Browsing the index -/

section Browse

variable {es : List TemporalIndexEntry} {payload : List UInt8} {stride : UInt32}
  {evlrDataStart : UInt64} {store : Store}

/-- In an index without entries the root page is empty. -/
lemma browse_without_entries (w : TimeWindow) (fuel : ℕ) :
    browse (readPage parseTemporal (TemporalIndexHeader.write ⟨1, stride, 0, 1,
        evlrDataStart + UInt64.ofNat temporalHeaderSize, 0⟩) evlrDataStart) w.meetsSubtree
      (fuel + 1) ⟨evlrDataStart + UInt64.ofNat temporalHeaderSize, 0⟩ = some [] := by
  have hpos : (evlrDataStart + UInt64.ofNat temporalHeaderSize - evlrDataStart).toNat =
      temporalHeaderSize := sub_start_toNat _ (by decide)
  have hslice : slice (TemporalIndexHeader.write ⟨1, stride, 0, 1,
      evlrDataStart + UInt64.ofNat temporalHeaderSize, 0⟩) temporalHeaderSize 0 = [] := rfl
  rw [browse, readPage]
  simp only [hpos, Nat.add_zero, TemporalIndexHeader.length_write, le_refl, if_true, hslice]
  rfl

/-- In an index of sound entries, browsing finds the nodes that are worth reading. -/
lemma exists_browse (hfits : ∀ e ∈ es, e.key.FitsI32) (hsound : ∀ e ∈ es, EntrySound store e)
    (hsizes : ∀ built, temporalPages es = some built →
      ∀ page ∈ built.2, page.data.length < 2 ^ 32)
    (h : buildTemporalPayload es stride evlrDataStart = some payload) :
    ∃ index rest need, TemporalIndexHeader.read payload = some (index, rest) ∧
      ∀ fuel, need ≤ fuel → ∀ w : TimeWindow, ∃ found,
        browse (readPage parseTemporal payload evlrDataStart) w.meetsSubtree fuel
            ⟨index.rootPageOffset, index.rootPageSize.toNat⟩ = some found ∧
          (found.filter w.meetsEntry).Perm (es.filter w.meetsEntry) := by
  by_cases hne : es = []
  · subst hne
    rw [buildTemporalPayload, if_pos List.isEmpty_nil] at h
    obtain rfl := Option.some.inj h
    refine ⟨_, _, 1, TemporalIndexHeader.read_write _ [], fun fuel hfuel w => ⟨[], ?_,
      List.Perm.refl _⟩⟩
    obtain ⟨fuel, rfl⟩ : ∃ n, fuel = n + 1 := ⟨fuel - 1, by omega⟩
    exact browse_without_entries w fuel
  · have hsamples : ∀ e ∈ es, e.samples ≠ [] := by
      intro e he hnil
      obtain ⟨first, hfirst, -⟩ := (hsound e he).1.first
      rw [hnil] at hfirst
      cases hfirst
    obtain ⟨boundaries, all, first, header, layout⟩ :=
      temporalLayout_of_build hne hfits hsamples hsizes h
    have hread : TemporalIndexHeader.read payload =
        some (header, (patchPages first (all.map temporalFormat.page)).flatten) := by
      rw [layout.payload_eq]
      exact header.read_write _
    refine ⟨header, _, boundaries.length + 1, hread, fun fuel hfuel w => ?_⟩
    rw [layout.root, layout.payload_eq]
    -- the invariant: the entries of a page are unions of whole subtrees of the index
    have hinv : ∃ l, Ladder (maxLevelOf (es.map TemporalIndexEntry.key)) l boundaries ∧
        Saturated es es l :=
      ⟨3, choosePageBoundaries_ladder layout.boundaries_eq, Saturated.refl es 3⟩
    refine browse_readPage (I := fun bs es' => ∃ l,
      Ladder (maxLevelOf (es.map TemporalIndexEntry.key)) l bs ∧ Saturated es es' l)
      layout.all_eq layout.first_eq layout.length_lt layout.parses splitTemporal_perm ?_ hinv hfuel
    rintro b bs es' ⟨l, ⟨rfl, -, hrest⟩, hsat⟩ g hg
    obtain ⟨g, hgroup, rfl⟩ := List.mem_map.mp hg
    obtain ⟨-, -, hsub, hbelow⟩ :=
      childGroups_spec (fun e he => (boundary_lt_of_grouped he).le) hgroup
    refine ⟨⟨b + 3, hrest, hsat.next (by omega) hgroup⟩, fun e he hmeets => ?_⟩
    have hmem : e ∈ es := hsat.subset (List.mem_filter.mp (hsub.subset he)).1
    refine TimeWindow.meetsSubtree_of_meetsEntry (hsound e hmem) ?_ (hsat.clamped hsound hgroup)
      hmeets
    exact fun x hx => ⟨e, hmem, hbelow e he, hx⟩

end Browse

/-! ## The index in the file -/

section File

variable {laz : LazCodec} {o : IterOrder} {s : WriteSettings} {store : Store}
  {nodeKeys : List (VoxelKey × ℕ)} {file : List UInt8}

/-- The record of the temporal index is found behind that of the hierarchy. -/
lemma FileParts.findEvlr_temporal (parts : FileParts laz o s store nodeKeys file)
    (hlen : file.length < 2 ^ 63) {payload : List UInt8}
    (hone : parts.temporal = [temporalEvlr payload]) : ∃ start,
      start = parts.evlrStart + (writeEvlrs [hierarchyEvlr parts.payload]).length +
        evlrHeaderSize ∧
      findEvlr file (ascii "copc_temporal") 1000 2 parts.evlrStart =
        some (start, payload.length) ∧
      slice file start payload.length = payload := by
  have hlayout := parts.file_layout
  rw [← List.append_assoc, hone] at hlayout
  have htotal := congrArg List.length hlayout
  rw [List.length_append] at htotal
  have hnames := hone ▸ parts.wellNamed_evlrs
  have hother : ∀ u ∈ [hierarchyEvlr parts.payload],
      ¬ (u.1.userId = (temporalEvlr payload).1.userId ∧
        u.1.recordId = (temporalEvlr payload).1.recordId) := by
    rintro u hu ⟨huser, -⟩
    rw [List.mem_singleton.mp hu] at huser
    exact absurd huser (show ascii "copc" ≠ ascii "copc_temporal" by decide +kernel)
  have hwrite : writeEvlrs [hierarchyEvlr parts.payload, temporalEvlr payload] =
      writeEvlrs [hierarchyEvlr parts.payload] ++
        (writeEvlr (temporalEvlr payload).1 (temporalEvlr payload).2 ++ []) := by
    simp [writeEvlrs]
  have hfound := @findEvlr_writeEvlrs [hierarchyEvlr parts.payload] [] (temporalEvlr payload)
    hnames hother (parts.before ++ parts.pointData) []
    (show (writeEvlrs [hierarchyEvlr parts.payload, temporalEvlr payload]).length < 2 ^ 64 by omega)
  rw [List.append_nil, List.singleton_append, ← hlayout, ← parts.evlrStart_eq] at hfound
  have hsize : payload.length < 2 ^ 64 := by
    rw [hwrite, List.append_nil, List.length_append, List.length_append, length_writeEvlr] at htotal
    have hdata : (temporalEvlr payload).1.data.length = payload.length := rfl
    omega
  obtain ⟨-, -, -, hdata⟩ := @readEvlrHeader (temporalEvlr payload)
    (hnames _ (List.mem_cons_of_mem _ (List.mem_singleton_self _)))
    (parts.before ++ parts.pointData ++ writeEvlrs [hierarchyEvlr parts.payload]) [] hsize
  rw [List.append_assoc _ (writeEvlrs _), ← hwrite, ← hlayout,
    @List.length_append _ (parts.before ++ parts.pointData), ← parts.evlrStart_eq] at hdata
  exact ⟨_, rfl, hfound, hdata⟩

/-- The reader finds the nodes that are worth reading. -/
lemma FileParts.exists_timeEntries (parts : FileParts laz o s store nodeKeys file)
    (hw : Writable laz s store nodeKeys) (hlen : file.length < 2 ^ 63) {stride : TemporalStride}
    (hstride : s.temporalIndex = some stride)
    (hnan : ∀ e ∈ nodeKeys, ∀ p ∈ store e.1, (timeOf p).isNaN = false)
    (hsizes : ∀ built, temporalPages (temporalEntries o stride store nodeKeys) = some built →
      ∀ page ∈ built.2, page.data.length < 2 ^ 32) :
    ∃ need, ∀ fuel, need ≤ fuel → ∀ w, ∃ es, parts.header.timeEntries file w fuel = some es ∧
      es.Perm ((temporalEntries o stride store nodeKeys).filter w.meetsEntry) := by
  obtain ⟨payload, hpayload, hone⟩ : ∃ payload, writeTemporalIndex o stride store nodeKeys
      (UInt64.ofNat (parts.evlrStart + (writeEvlrs [hierarchyEvlr parts.payload]).length) +
        UInt64.ofNat evlrHeaderSize) = some payload ∧ parts.temporal = [temporalEvlr payload] := by
    rcases parts.temporal_cases with ⟨hnone, -⟩ | ⟨stride', payload, hsome, hpayload, hone⟩
    · rw [hstride] at hnone
      cases hnone
    · obtain rfl := Option.some.inj (hstride.symm.trans hsome)
      exact ⟨payload, hpayload, hone⟩
  have hfits : ∀ e ∈ temporalEntries o stride store nodeKeys, e.key.FitsI32 := by
    intro e he
    obtain ⟨d, hd, hkey⟩ := mem_temporalEntries.mp ⟨e, he, rfl⟩
    rw [← hkey]
    exact hw.keys d (mem_dataKeys.mp hd).1
  obtain ⟨start, hstart, hfound, hslice⟩ := parts.findEvlr_temporal hlen hone
  obtain ⟨index, rest, need, hread, hbrowse⟩ :=
    exists_browse hfits (temporalEntries_sound hw.counts hnan) hsizes hpayload
  rw [← UInt64.ofNat_add, ← hstart] at hbrowse
  refine ⟨need, fun fuel hfuel w => ?_⟩
  obtain ⟨found, hfound', hperm⟩ := hbrowse fuel hfuel w
  refine ⟨found.filter w.meetsEntry, ?_, hperm⟩
  have hnum : parts.header.numEvlrs = 2 := by
    rw [header, hstride]
    rfl
  have hevlr : findEvlr file (ascii "copc_temporal") 1000 parts.header.numEvlrs
      parts.header.evlrStart = some (start, payload.length) := by
    rw [hnum]
    exact hfound
  simp only [CopcHeader.timeEntries, hevlr, Option.bind_eq_bind, Option.bind_some, hslice, hread,
    hfound']

/-! ## The points of a window -/

/-- The nodes that are worth reading hold all points of the window. -/
lemma filter_flatMap_meets (hcount : ∀ e ∈ nodeKeys, e.2 = (store e.1).length)
    (hnan : ∀ e ∈ nodeKeys, ∀ p ∈ store e.1, (timeOf p).isNaN = false) (stride : TemporalStride)
    (w : TimeWindow) (fmt : UInt8) :
    ((((temporalEntries o stride store nodeKeys).filter w.meetsEntry).flatMap fun e =>
        (store e.key).map (RawPoint.asWritten fmt)).filter w.holds) =
      ((writtenPoints store nodeKeys).filter w.holds).map (RawPoint.asWritten fmt) := by
  have hsound := @temporalEntries_sound o stride store nodeKeys hcount hnan
  have hkeys : (temporalEntries o stride store nodeKeys).map TemporalIndexEntry.key =
      (dataKeys nodeKeys).map Prod.fst := by
    rw [temporalEntries, List.map_map]
    exact (encodeNodes_spec o _ store nodeKeys).1
  have hpoints : writtenPoints store nodeKeys =
      (temporalEntries o stride store nodeKeys).flatMap fun e => store e.key := by
    rw [← List.flatMap_map TemporalIndexEntry.key store, hkeys, List.flatMap_map]
    rfl
  have hall : ∀ es : List TemporalIndexEntry, (∀ e ∈ es, EntrySound store e) →
      ((es.filter w.meetsEntry).flatMap fun e =>
          (store e.key).map (RawPoint.asWritten fmt)).filter w.holds =
        ((es.flatMap fun e => store e.key).filter w.holds).map (RawPoint.asWritten fmt) := by
    intro es hes
    induction es with
    | nil => rfl
    | cons e es ih =>
      have hrest := ih fun e' he' => hes e' (List.mem_cons_of_mem _ he')
      have hown : ((store e.key).map (RawPoint.asWritten fmt)).filter w.holds =
          ((store e.key).filter w.holds).map (RawPoint.asWritten fmt) := List.filter_map
      rw [List.flatMap_cons, List.filter_append, List.map_append, ← hrest, List.filter_cons]
      split_ifs with hmeets
      · rw [List.flatMap_cons, List.filter_append, hown]
      · have hnone : (store e.key).filter w.holds = [] := by
          rw [List.filter_eq_nil_iff]
          exact fun p hp hp' => hmeets
            (TimeWindow.meetsEntry_of_holds (hes e List.mem_cons_self) hp hp')
        rw [hnone, List.map_nil, List.nil_append]
  rw [hpoints]
  exact hall _ hsound

/-- **A time query is exact.**  In every written file with a temporal index, and for every window,
the reader that skips pages and nodes by their ranges gets the points of the window, each once. -/
theorem pointsWithin_exact (hw : Writable laz s store nodeKeys) {stride : TemporalStride}
    (hstride : s.temporalIndex = some stride)
    (hsizes : ∀ built, temporalPages (temporalEntries o stride store nodeKeys) = some built →
      ∀ page ∈ built.2, page.data.length < 2 ^ 32)
    (h : writeCopc laz o s store nodeKeys = some file) (hlen : file.length < 2 ^ 63) :
    ∃ header need, readCopcHeader file = some header ∧ ∀ fuel, need ≤ fuel → ∀ w : TimeWindow,
      ∃ pts, header.pointsWithin laz file w fuel = some pts ∧
        pts.Perm (((writtenPoints store nodeKeys).filter w.holds).map
          (RawPoint.asWritten s.pointFormat)) := by
  obtain ⟨parts⟩ := exists_fileParts h
  have hback := parts.readsBack hw hlen
  obtain ⟨needIndex, hindex⟩ := parts.exists_timeEntries hw hlen hstride hw.times hsizes
  obtain ⟨needNodes, hnodes⟩ := @Lists.exists_forall_le _ (fun n fuel => ∃ pts,
      (parts.header.lookup file n.1 fuel).bind (parts.header.pointsOf laz file) = some pts ∧
        pts.Perm ((store n.1).map (RawPoint.asWritten s.pointFormat))) nodeKeys fun n hn => by
    obtain ⟨entry, pts, need, hfound, hpts, hperm, -⟩ := hback.found n hn
    exact ⟨need, fun fuel hfuel => ⟨pts, by rw [hfound fuel hfuel, Option.bind_some, hpts], hperm⟩⟩
  refine ⟨parts.header, max needIndex needNodes, hback.head, fun fuel hfuel w => ?_⟩
  obtain ⟨es, hes, hperm⟩ := hindex fuel ((le_max_left _ _).trans hfuel) w
  obtain ⟨pts, hpts, hpoints⟩ := @Lists.exists_mapM_perm _ _
    (fun e => (parts.header.lookup file e.key fuel).bind (parts.header.pointsOf laz file))
    (fun e => (store e.key).map (RawPoint.asWritten s.pointFormat)) es fun e he => by
      obtain ⟨d, hd, hkey⟩ := mem_temporalEntries.mp
        ⟨e, (List.mem_filter.mp (hperm.mem_iff.mp he)).1, rfl⟩
      rw [← hkey]
      exact hnodes fuel ((le_max_right _ _).trans hfuel) d (mem_dataKeys.mp hd).1
  refine ⟨pts.flatten.filter w.holds, ?_, ?_⟩
  · simp only [CopcHeader.pointsWithin, hes, Option.bind_eq_bind, Option.bind_some, hpts]
  · rw [← filter_flatMap_meets hw.counts hw.times stride]
    exact (hpoints.trans (hperm.flatMap_right _)).filter _

end File

/-! ## A window over a few nodes -/

/-- The settings for a file with a temporal index. -/
def timedSettings : WriteSettings := { soleSettings with temporalIndex := some tenthPoints }

lemma writable_timed : Writable storedLaz timedSettings fewStore fewNodes := { writable_few with }

/-- The pages of the temporal index are small. -/
lemma temporalPages_few {built : ℕ × List Page}
    (h : temporalPages (temporalEntries .listed tenthPoints fewStore fewNodes) = some built) :
    (pageSizes built.2).sum ≤ 288 := by
  obtain ⟨hlen, hlevel, hfew⟩ := temporalEntries_few .listed tenthPoints
  have hsum := sum_pageSizes_le (List.ne_nil_of_length_pos (by omega)) hlevel hfew h
  omega

/-- The file with the index is written, and it is short. -/
lemma exists_writeCopc_timed : ∃ file,
    writeCopc storedLaz .listed timedSettings fewStore fewNodes = some file ∧
      file.length < 2 ^ 63 := by
  obtain ⟨hdata, hlevel⟩ := length_few writable_timed (by decide +kernel) (by decide) .listed
  obtain ⟨file, hfile⟩ := exists_writeCopc writable_timed
    { levels := by decide
      hierarchy := by rw [hlevel]; decide
      temporal := fun stride hstride built h => by
        obtain rfl := Option.some.inj hstride
        have hpages := temporalPages_few h
        rw [temporalHeaderSize, isizeMax]
        omega
      pointData := by
        rw [← writtenState, hdata]
        norm_num }
  refine ⟨file, hfile, ?_⟩
  obtain ⟨parts⟩ := exists_fileParts hfile
  have hlen := parts.length_file_le
  rcases parts.temporal_cases with ⟨hnone, -⟩ | ⟨stride, payload, hsome, hpayload, hone⟩
  · cases hnone
  · obtain rfl := Option.some.inj hsome
    obtain ⟨hcount, -⟩ := temporalEntries_few .listed tenthPoints
    obtain ⟨built, hpages, hsize⟩ :=
      length_temporalPayload (List.ne_nil_of_length_pos (by omega)) hpayload
    have hsum := temporalPages_few hpages
    have hevlr : (writeEvlrs parts.temporal).length = evlrHeaderSize + payload.length := by
      rw [hone, writeEvlrs, List.flatMap_singleton, length_writeEvlr]
      rfl
    have hnodes : fewNodes.length = 4 := rfl
    rw [hdata, hlevel, hevlr, hsize, hnodes, evlrHeaderSize, temporalHeaderSize] at hlen
    omega

/-- Of the six points, three are found in the window from 1 to 2: two at the root and one below
it. -/
theorem pointsWithin_exact_few : ∃ file header need,
    writeCopc storedLaz .listed timedSettings fewStore fewNodes = some file ∧
      readCopcHeader file = some header ∧
    ∀ fuel, need ≤ fuel → ∃ pts,
      header.pointsWithin storedLaz file ⟨.ofNat 1, .ofNat 2⟩ fuel = some pts ∧
        pts.length = 3 := by
  obtain ⟨file, hfile, hlen⟩ := exists_writeCopc_timed
  obtain ⟨header, need, hheader, hquery⟩ :=
    pointsWithin_exact writable_timed rfl (fun built h page hpage => by
      have hsum := temporalPages_few h
      have hle : page.data.length ≤ (pageSizes built.2).sum :=
        List.single_le_sum (fun _ _ => Nat.zero_le _) _ (List.mem_map_of_mem hpage)
      omega) hfile hlen
  refine ⟨file, header, need, hfile, hheader, fun fuel hfuel => ?_⟩
  obtain ⟨pts, hpts, hperm⟩ := hquery fuel hfuel ⟨.ofNat 1, .ofNat 2⟩
  refine ⟨pts, hpts, ?_⟩
  rw [hperm.length_eq, List.length_map, writtenPoints, dataKeys_few]
  decide +kernel

end CopcConverter
