import CopcConverter.Foundations.Binary64
import CopcConverter.Writer.Hierarchy

/-!
# The temporal index of the output

`build_temporal_payload` writes one record for every node with its GPS time samples, in pages of
three levels.  Unlike in the hierarchy, the nodes at a boundary stay in the parent page and only
those below it move to the child page.  A record with no samples is a pointer, and holds the range
of times of its subtree.  A reader that follows the pointers from the root page finds every entry
once, and so does one that scans the pages in the order in which they lie.

A header in front holds the stride, the numbers of nodes and of pages, and the place of the root
page.  The numbers have 32 bits and are the true ones only up to that.  As in the hierarchy, the
proofs instantiate the general theory of page trees.
-/

namespace CopcConverter

open LevelTree PageTree PageBytes

/-! ## Records -/

/-- The bytes of a floating-point number. -/
def f64Bytes (a : F64) : List UInt8 := Bytes.u64 a.bits

/-- One node's samples in the temporal index. -/
structure TemporalIndexEntry where
  key : VoxelKey
  samples : List F64
  deriving DecidableEq

/-- What a pointer says about the subtree it leads to. -/
structure SubtreeTimes where
  key : VoxelKey
  timeMin : F64
  timeMax : F64

/-- A pointer to a page (48 bytes): its number of samples is zero. -/
structure TemporalPagePointer where
  subtree : SubtreeTimes
  childPageOffset : UInt64
  childPageSize : ℕ

/-- The header of the index (32 bytes). -/
structure TemporalIndexHeader where
  version : UInt32
  stride : UInt32
  nodeCount : UInt32
  pageCount : UInt32
  rootPageOffset : UInt64
  rootPageSize : UInt32
  deriving DecidableEq

def temporalHeaderSize : ℕ := 32

/-- The bytes of an entry. -/
def TemporalIndexEntry.write (e : TemporalIndexEntry) : List UInt8 :=
  e.key.bytes ++ (Bytes.toLE 4 e.samples.length ++ e.samples.flatMap f64Bytes)

/-- The bytes of a pointer. -/
def TemporalPagePointer.write (p : TemporalPagePointer) : List UInt8 :=
  p.subtree.key.bytes ++ (Bytes.toLE 4 0 ++ (Bytes.u64 p.childPageOffset ++
    (Bytes.toLE 4 p.childPageSize ++ (f64Bytes p.subtree.timeMin ++ f64Bytes p.subtree.timeMax))))

/-- The bytes of the header. -/
def TemporalIndexHeader.write (h : TemporalIndexHeader) : List UInt8 :=
  Bytes.toLE 4 h.version.toNat ++ (Bytes.toLE 4 h.stride.toNat ++
    (Bytes.toLE 4 h.nodeCount.toNat ++ (Bytes.toLE 4 h.pageCount.toNat ++
      (Bytes.u64 h.rootPageOffset ++ (Bytes.toLE 4 h.rootPageSize.toNat ++ Bytes.toLE 4 0)))))

@[simp] lemma TemporalIndexHeader.length_write (h : TemporalIndexHeader) :
    h.write.length = temporalHeaderSize := by
  simp [write, temporalHeaderSize]

/-! ## Building -/

/-- The smallest first and the largest last sample of some entries. -/
def timeRangeOf (es : List TemporalIndexEntry) : F64 × F64 :=
  es.foldl (fun t e =>
    ((match e.samples.head? with
      | some first => if first.lt t.1 then first else t.1
      | none => t.1),
    match e.samples.getLast? with
      | some last => if t.2.lt last then last else t.2
      | none => t.2)) (F64.maxValue, F64.minValue)

/-- The range of times of a subtree: that of the entries of its page, and of its root when the root
is among the entries of the parent page. -/
def subtreeTimes (thisPageEntries : List TemporalIndexEntry)
    (g : VoxelKey × List TemporalIndexEntry) : SubtreeTimes :=
  let t := timeRangeOf g.2
  match thisPageEntries.find? fun e => e.key = g.1 with
  | some root => ⟨g.1, t.1.min (timeRangeOf [root]).1, t.2.max (timeRangeOf [root]).2⟩
  | none => ⟨g.1, t.1, t.2⟩

/-- Entries above or at the boundary stay; the others are grouped by their ancestor at the
boundary. -/
def splitTemporal (boundary : ℕ) (es : List TemporalIndexEntry) :
    List TemporalIndexEntry × List (SubtreeTimes × List TemporalIndexEntry) :=
  let thisPageEntries := es.filter fun e => e.key.level ≤ boundary
  (thisPageEntries, (childGroups TemporalIndexEntry.key boundary
    (es.filter fun e => ¬ e.key.level ≤ boundary)).map fun g =>
      (subtreeTimes thisPageEntries g, g.2))

/-- Append the pointer to a child page, whose offset and size, at bytes 20 to 32, are patched
later. -/
def addTemporalPointer (page : Page) (child : SubtreeTimes × ℕ) : Page where
  data := page.data ++ TemporalPagePointer.write ⟨child.1, 0, 0⟩
  pointerPatches := page.pointerPatches ++ [(page.data.length + 20, child.2)]

/-- Build the pages for some entries behind the pages so far; the number of their first page. -/
def buildTemporalPage : List ℕ → List TemporalIndexEntry → List Page → ℕ × List Page
  | [], es, pages => (pages.length, pages ++ [⟨es.flatMap TemporalIndexEntry.write, []⟩])
  | boundary :: boundaries, es, pages =>
    if es.isEmpty then (pages.length, pages ++ [⟨es.flatMap TemporalIndexEntry.write, []⟩])
    else
      let thisPageEntries := (splitTemporal boundary es).1
      let children := (splitTemporal boundary es).2
      if children.isEmpty then
        (pages.length, pages ++ [⟨thisPageEntries.flatMap TemporalIndexEntry.write, []⟩])
      else
        -- a slot for this page is reserved before its children are built
        let built := buildChildren (buildTemporalPage boundaries) children (pages ++ [⟨[], []⟩])
        let page := built.1.foldl addTemporalPointer
          ⟨thisPageEntries.flatMap TemporalIndexEntry.write, []⟩
        (pages.length, built.2.set pages.length page)

/-- The pages of an index and the number of the root page; none when the levels overflow. -/
def temporalPages (es : List TemporalIndexEntry) : Option (ℕ × List Page) :=
  (choosePageBoundaries (maxLevelOf (es.map TemporalIndexEntry.key))).map fun boundaries =>
    buildTemporalPage boundaries es []

/-- The payload of the temporal index; none when the levels overflow, or the payload does not fit a
vector. -/
def buildTemporalPayload (es : List TemporalIndexEntry) (stride : UInt32) (evlrDataStart : UInt64) :
    Option (List UInt8) :=
  let pagesStart := evlrDataStart + UInt64.ofNat temporalHeaderSize
  if es.isEmpty then some (TemporalIndexHeader.write ⟨1, stride, 0, 1, pagesStart, 0⟩)
  else
    (temporalPages es).bind fun built =>
      if temporalHeaderSize + (pageSizes built.2).sum ≤ isizeMax then
        some (TemporalIndexHeader.write
            { version := 1
              stride := stride
              nodeCount := UInt32.ofNat es.length
              pageCount := UInt32.ofNat built.2.length
              rootPageOffset := (linkTo pagesStart built.2 built.1).offset
              rootPageSize := UInt32.ofNat (linkTo pagesStart built.2 built.1).size } ++
          (patchPages pagesStart built.2).flatten)
      else none

/-! ## Reading -/

/-- Read some floating-point numbers. -/
def readSamples : ℕ → List UInt8 → Option (List F64 × List UInt8)
  | 0, bs => some ([], bs)
  | n + 1, bs => do
    let (bits, bs) ← Bytes.readLE 8 bs
    let (rest, bs) ← readSamples n bs
    some (⟨UInt64.ofNat bits⟩ :: rest, bs)

/-- Read a record: a pointer when it has no samples. -/
def parseTemporal (bs : List UInt8) :
    Option (Record TemporalIndexEntry SubtreeTimes Link × List UInt8) := do
  let (key, bs) ← VoxelKey.read bs
  let (sampleCount, bs) ← Bytes.readLE 4 bs
  if sampleCount = 0 then do
    let (offset, bs) ← Bytes.readLE 8 bs
    let (size, bs) ← Bytes.readLE 4 bs
    let (timeMin, bs) ← Bytes.readLE 8 bs
    let (timeMax, bs) ← Bytes.readLE 8 bs
    some (.pointer ⟨key, ⟨UInt64.ofNat timeMin⟩, ⟨UInt64.ofNat timeMax⟩⟩
      ⟨UInt64.ofNat offset, size⟩, bs)
  else do
    let (samples, bs) ← readSamples sampleCount bs
    some (.entry ⟨key, samples⟩, bs)

/-- Read the header. -/
def TemporalIndexHeader.read (bs : List UInt8) : Option (TemporalIndexHeader × List UInt8) := do
  let (version, bs) ← Bytes.readLE 4 bs
  let (stride, bs) ← Bytes.readLE 4 bs
  let (nodeCount, bs) ← Bytes.readLE 4 bs
  let (pageCount, bs) ← Bytes.readLE 4 bs
  let (rootPageOffset, bs) ← Bytes.readLE 8 bs
  let (rootPageSize, bs) ← Bytes.readLE 4 bs
  let (_, bs) ← Bytes.readLE 4 bs
  some (⟨UInt32.ofNat version, UInt32.ofNat stride, UInt32.ofNat nodeCount, UInt32.ofNat pageCount,
    UInt64.ofNat rootPageOffset, UInt32.ofNat rootPageSize⟩, bs)

/-- The pages from the root page of the header on, with their records. -/
def walkTemporal (payload : List UInt8) (evlrDataStart : UInt64) (header : TemporalIndexHeader)
    (fuel : ℕ) : Option (List (Link × List (Record TemporalIndexEntry SubtreeTimes Link))) :=
  walk (readPage parseTemporal payload evlrDataStart) fuel
    ⟨header.rootPageOffset, header.rootPageSize.toNat⟩

/-- The entries found by scanning what follows the header, skipping pointers. -/
def scanTemporal (payload : List UInt8) : Option (List TemporalIndexEntry) := do
  let (_, bs) ← TemporalIndexHeader.read payload
  let records ← readRecords parseTemporal bs.length bs
  some (entries records)

/-! ## The bytes of the pages -/

/-- How the records of the index are written. -/
def temporalFormat : Format TemporalIndexEntry SubtreeTimes where
  entryBytes := TemporalIndexEntry.write
  head t := t.key.bytes ++ Bytes.toLE 4 0
  tail t := f64Bytes t.timeMin ++ f64Bytes t.timeMax

/-- A pointer is appended as the format writes it. -/
lemma addTemporalPointer_eq : addTemporalPointer = temporalFormat.addPointer := by
  funext page child
  simp [addTemporalPointer, Format.addPointer, Format.reserve, Record.retarget, Format.encode,
    temporalFormat, TemporalPagePointer.write, Link.bytes]

/-- Building appends the pages of the page tree, written as bytes. -/
lemma buildTemporalPage_eq (boundaries : List ℕ) (es : List TemporalIndexEntry)
    (pages : List Page) :
    buildTemporalPage boundaries es pages = (pages.length,
      pages ++ (pagesFrom splitTemporal boundaries es pages.length).map temporalFormat.page) := by
  induction boundaries generalizing es pages with
  | nil =>
    rw [buildTemporalPage, pagesFrom, List.map_singleton, temporalFormat.page_entries]
    rfl
  | cons boundary boundaries ih =>
    -- without children the page is the one of the entries that stay
    have hleaf : (splitTemporal boundary es).2 = [] →
        (pagesFrom splitTemporal (boundary :: boundaries) es pages.length).map temporalFormat.page =
          [⟨(splitTemporal boundary es).1.flatMap TemporalIndexEntry.write, []⟩] := by
      intro hnone
      rw [pagesFrom, hnone, childPages, List.append_nil, List.map_singleton,
        temporalFormat.page_entries]
      rfl
    rw [buildTemporalPage]
    split_ifs with hempty
    · obtain rfl := List.isEmpty_iff.mp hempty
      have hsplit : splitTemporal boundary [] = ([], []) := by simp [splitTemporal]
      rw [hleaf (by rw [hsplit]), hsplit]
    change (if (splitTemporal boundary es).2.isEmpty = true then _ else _) = _
    split_ifs with hnone
    · rw [hleaf (List.isEmpty_iff.mp hnone)]
    · obtain ⟨hpointers, hpages⟩ := buildChildren_eq ih (splitTemporal boundary es).2
        (pages ++ [⟨[], []⟩])
      have hlen : (pages ++ [(⟨[], []⟩ : Page)]).length = pages.length + 1 := by simp
      rw [hlen] at hpointers hpages
      have hentries :
          (⟨(splitTemporal boundary es).1.flatMap TemporalIndexEntry.write, []⟩ : Page) =
          temporalFormat.page ((splitTemporal boundary es).1.map .entry) :=
        (temporalFormat.page_entries _).symm
      simp only
      rw [hpages, hentries, addTemporalPointer_eq, temporalFormat.foldl_addPointer, hpointers,
        pagesFrom, List.map_cons, List.append_assoc, List.set_append_right _ _ le_rfl, Nat.sub_self]
      rfl

/-! ## Splitting -/

section Splitting

variable {boundary : ℕ} {es : List TemporalIndexEntry}

/-- Splitting loses no entry. -/
lemma splitTemporal_perm (boundary : ℕ) (es : List TemporalIndexEntry) :
    ((splitTemporal boundary es).1 ++ (splitTemporal boundary es).2.flatMap Prod.snd).Perm es := by
  simp only [splitTemporal, List.flatMap_map, decide_not]
  refine ((childGroups_perm _).append_left _).trans ?_
  exact List.filter_append_perm (fun e => decide (e.key.level ≤ boundary)) es

/-- The entries that are grouped are below the boundary. -/
lemma boundary_lt_of_grouped {e : TemporalIndexEntry}
    (h : e ∈ es.filter fun e => ¬ e.key.level ≤ boundary) : boundary < e.key.level := by
  simpa using (List.mem_filter.mp h).2

lemma mem_splitTemporal {g : SubtreeTimes × List TemporalIndexEntry}
    (h : g ∈ (splitTemporal boundary es).2) :
    g.1.key.level = boundary ∧ g.2 ≠ [] ∧ g.2.Sublist es ∧
      ∀ e ∈ g.2, IsAncestor g.1.key e.key := by
  obtain ⟨g', hg', rfl⟩ := List.mem_map.mp h
  obtain ⟨hlevel, hne, hsub, hbelow⟩ :=
    childGroups_spec (fun e he => (boundary_lt_of_grouped he).le) hg'
  have hkey : (subtreeTimes (es.filter fun e => e.key.level ≤ boundary) g').key = g'.1 := by
    unfold subtreeTimes
    dsimp only
    split <;> rfl
  simp only [hkey]
  exact ⟨hlevel, hne, hsub.trans List.filter_sublist, hbelow⟩

end Splitting

/-! ## Reading back -/

@[simp] lemma length_flatMap_f64Bytes (samples : List F64) :
    (samples.flatMap f64Bytes).length = 8 * samples.length := by
  induction samples with
  | nil => rfl
  | cons a samples ih =>
    have ha : (f64Bytes a).length = 8 := Bytes.length_u64 _
    rw [List.flatMap_cons, List.length_append, ih, ha, List.length_cons]
    omega

/-- The header is read back. -/
lemma TemporalIndexHeader.read_write (h : TemporalIndexHeader) (rest : List UInt8) :
    read (h.write ++ rest) = some (h, rest) := by
  have h32 : ∀ n : UInt32, ∀ rest, Bytes.readLE 4 (Bytes.toLE 4 n.toNat ++ rest) =
      some (n.toNat, rest) := fun n => Bytes.readLE_append (w := 4) n.toNat_lt
  have h64 := Bytes.readLE_append (w := 8) h.rootPageOffset.toNat_lt
  have hzero := Bytes.readLE_append (w := 4) (n := 0) (by norm_num)
  simp only [read, write, Bytes.u64, List.append_assoc, h32, h64, hzero, Option.bind_eq_bind,
    Option.bind_some, UInt32.ofNat_toNat, UInt64.ofNat_toNat]

lemma readSamples_flatMap (samples : List F64) (rest : List UInt8) :
    readSamples samples.length (samples.flatMap f64Bytes ++ rest) = some (samples, rest) := by
  induction samples with
  | nil => rfl
  | cons a samples ih =>
    have ha := Bytes.readLE_append (w := 8) a.bits.toNat_lt
    simp only [List.length_cons, readSamples, List.flatMap_cons, List.append_assoc, f64Bytes,
      Bytes.u64, ha, Option.bind_eq_bind, Option.bind_some, UInt64.ofNat_toNat]
    rw [ih, Option.bind_some]

/-- An entry is read back, when its number of samples fits and is not zero. -/
lemma temporal_parses_entry {e : TemporalIndexEntry} (hfits : e.key.FitsI32)
    (hsamples : e.samples ≠ []) (hlen : e.samples.length < 2 ^ 32) :
    temporalFormat.Parses parseTemporal (.entry e) where
  ne_nil := by
    apply List.ne_nil_of_length_pos
    change 0 < e.write.length
    rw [TemporalIndexEntry.write, List.length_append, VoxelKey.length_bytes]
    omega
  parse_eq rest := by
    have hne : e.samples.length ≠ 0 := fun h => hsamples (List.length_eq_zero_iff.mp h)
    have hcount := Bytes.readLE_append (w := 4) (show e.samples.length < 256 ^ 4 by omega)
    change parseTemporal (e.write ++ rest) = _
    simp only [parseTemporal, TemporalIndexEntry.write, List.append_assoc,
      VoxelKey.read_bytes hfits, hcount, Option.bind_eq_bind, Option.bind_some, if_neg hne,
      readSamples_flatMap]

/-- A pointer is read back, when the size of its target fits. -/
lemma temporal_parses_pointer {t : SubtreeTimes} {link : Link} (hfits : t.key.FitsI32)
    (hsize : link.size < 2 ^ 32) : temporalFormat.Parses parseTemporal (.pointer t link) where
  ne_nil := by
    apply List.ne_nil_of_length_pos
    change 0 < (t.key.bytes ++ Bytes.toLE 4 0 ++ _).length
    rw [List.length_append, List.length_append, VoxelKey.length_bytes]
    omega
  parse_eq rest := by
    have hzero := Bytes.readLE_append (w := 4) (n := 0) (by norm_num)
    have hoffset := Bytes.readLE_append (w := 8) link.offset.toNat_lt
    have hlink := Bytes.readLE_append (w := 4) (show link.size < 256 ^ 4 by omega)
    have hmin := Bytes.readLE_append (w := 8) t.timeMin.bits.toNat_lt
    have hmax := Bytes.readLE_append (w := 8) t.timeMax.bits.toNat_lt
    simp only [parseTemporal, Format.encode, temporalFormat, Link.bytes, f64Bytes, Bytes.u64,
      List.append_assoc, VoxelKey.read_bytes hfits, hzero, hoffset, hlink, hmin, hmax, if_true,
      Option.bind_eq_bind, Option.bind_some, UInt64.ofNat_toNat]

/-- What readers make of a payload: following the pointers from the root page of the header ends and
gives the entries, each once; the pages lie one after the other behind the header and end with the
payload; scanning gives the same entries; and the header counts entries and pages, as far as 32 bits
go. -/
structure TemporalIndex (es : List TemporalIndexEntry) (payload : List UInt8) (stride : UInt32)
    (evlrDataStart : UInt64) (header : TemporalIndexHeader) : Prop where
  header_read : ∃ rest, TemporalIndexHeader.read payload = some (header, rest)
  version : header.version = 1
  stride_eq : header.stride = stride
  nodeCount : header.nodeCount = UInt32.ofNat es.length
  walked : ∃ pages n, (∀ fuel, n ≤ fuel →
      walkTemporal payload evlrDataStart header fuel = some pages) ∧
    header.pageCount = UInt32.ofNat pages.length ∧
    (pages.flatMap fun page => entries page.2).Perm es ∧
    Tiles evlrDataStart temporalHeaderSize (pages.map Prod.fst) payload.length
  scanned : ∃ found, scanTemporal payload = some found ∧ found.Perm es

section Payload

variable {es : List TemporalIndexEntry} {boundaries : List ℕ} {first : UInt64}

/-- All records of the pages are read back. -/
lemma temporal_parses (hfits : ∀ e ∈ es, e.key.FitsI32) (hsamples : ∀ e ∈ es, e.samples ≠ [])
    (hpages : ∀ rs ∈ pagesFrom splitTemporal boundaries es 0,
      (temporalFormat.page rs).data.length < 2 ^ 32) :
    ∀ rs ∈ pagesFrom splitTemporal boundaries es 0, ∀ r ∈ rs,
      temporalFormat.Parses parseTemporal (r.retarget (linkTo first
        ((pagesFrom splitTemporal boundaries es 0).map temporalFormat.page))) := by
  have hsat : ∀ rs ∈ pagesFrom splitTemporal boundaries es 0, ∀ r ∈ rs,
      r.Satisfies (fun e => e.key.FitsI32 ∧ e.samples ≠ []) fun t => t.key.FitsI32 := by
    refine pagesFrom_satisfies (fun b es hes =>
      ⟨fun e he => hes e (List.mem_filter.mp he).1, fun g hg => ?_⟩) boundaries
      (fun e he => ⟨hfits e he, hsamples e he⟩) 0
    obtain ⟨-, hne, hsub, hbelow⟩ := mem_splitTemporal hg
    obtain ⟨e, he⟩ := List.exists_mem_of_ne_nil _ hne
    exact ⟨(hes e (hsub.subset he)).1.of_isAncestor (hbelow e he),
      fun e he => hes e (hsub.subset he)⟩
  intro rs hrs r hr
  have hr' := hsat rs hrs r hr
  have hsize := hpages rs hrs
  cases r with
  | entry e =>
    apply temporal_parses_entry hr'.1 hr'.2
    have hsub : (temporalFormat.reserve (.entry e)).length ≤
        (temporalFormat.page rs).data.length := by
      have h := ((List.singleton_sublist.mpr hr).flatMap temporalFormat.reserve).length_le
      rwa [List.flatMap_singleton] at h
    have hentry : (temporalFormat.reserve (.entry e)).length = 20 + 8 * e.samples.length := by
      change (e.key.bytes ++ (Bytes.toLE 4 e.samples.length ++
        e.samples.flatMap f64Bytes)).length = _
      simp only [List.length_append, VoxelKey.length_bytes, Bytes.length_toLE,
        length_flatMap_f64Bytes]
      omega
    omega
  | pointer t i =>
    obtain ⟨-, hlt⟩ := pagesFrom_targets boundaries es 0 rs hrs i
      (List.mem_filterMap.mpr ⟨_, hr, rfl⟩)
    rw [Nat.zero_add] at hlt
    have hpage := List.getElem?_eq_getElem hlt
    have hlink : (linkTo first ((pagesFrom splitTemporal boundaries es 0).map
        temporalFormat.page) i).size = _ := size_linkTo_eq first hpage
    apply temporal_parses_pointer hr'
    rw [hlink]
    exact hpages _ (List.getElem_mem hlt)

/-- The payload of an index with entries. -/
lemma buildTemporalPayload_eq (hne : es ≠ [])
    (hbs : choosePageBoundaries (maxLevelOf (es.map TemporalIndexEntry.key)) = some boundaries)
    (stride : UInt32) (evlrDataStart : UInt64) :
    temporalPages es =
        some (0, (pagesFrom splitTemporal boundaries es 0).map temporalFormat.page) ∧
    buildTemporalPayload es stride evlrDataStart =
      let pages := (pagesFrom splitTemporal boundaries es 0).map temporalFormat.page
      let pagesStart := evlrDataStart + UInt64.ofNat temporalHeaderSize
      if temporalHeaderSize + (pageSizes pages).sum ≤ isizeMax then
        some (TemporalIndexHeader.write ⟨1, stride, UInt32.ofNat es.length,
            UInt32.ofNat pages.length, (linkTo pagesStart pages 0).offset,
            UInt32.ofNat (linkTo pagesStart pages 0).size⟩ ++
          (patchPages pagesStart pages).flatten)
      else none := by
  have hempty : ¬ es.isEmpty = true := by rwa [List.isEmpty_iff]
  have hpages : temporalPages es =
      some (0, (pagesFrom splitTemporal boundaries es 0).map temporalFormat.page) := by
    rw [temporalPages, hbs, Option.map_some, buildTemporalPage_eq]
    rfl
  refine ⟨hpages, ?_⟩
  rw [buildTemporalPayload, if_neg hempty, hpages, Option.bind_some]

/-- The payload is as long as its header and its pages. -/
lemma length_temporalPayload (hne : es ≠ []) {stride : UInt32} {evlrDataStart : UInt64}
    {payload : List UInt8} (h : buildTemporalPayload es stride evlrDataStart = some payload) :
    ∃ built, temporalPages es = some built ∧
      payload.length = temporalHeaderSize + (pageSizes built.2).sum := by
  obtain ⟨boundaries, hbs⟩ : ∃ bs,
      choosePageBoundaries (maxLevelOf (es.map TemporalIndexEntry.key)) = some bs := by
    rw [buildTemporalPayload, if_neg (by rwa [List.isEmpty_iff])] at h
    obtain ⟨built, hbuilt, -⟩ := Option.bind_eq_some_iff.mp h
    obtain ⟨bs, hbs, -⟩ := Option.map_eq_some_iff.mp hbuilt
    exact ⟨bs, hbs⟩
  obtain ⟨hpages, hpayload⟩ := buildTemporalPayload_eq hne hbs stride evlrDataStart
  rw [hpayload] at h
  simp only at h
  split_ifs at h
  obtain rfl := Option.some.inj h
  refine ⟨_, hpages, ?_⟩
  rw [List.length_append, TemporalIndexHeader.length_write, length_flatten_patchPages]

/-- How a payload is laid out: the pages of the page tree follow the header, which leads to the
first one, and their records are read back. -/
structure TemporalLayout (es : List TemporalIndexEntry) (payload : List UInt8) (stride : UInt32)
    (evlrDataStart : UInt64) (boundaries : List ℕ)
    (all : List (List (Record TemporalIndexEntry SubtreeTimes ℕ))) (first : UInt64)
    (header : TemporalIndexHeader) : Prop where
  boundaries_eq : choosePageBoundaries (maxLevelOf (es.map TemporalIndexEntry.key)) =
    some boundaries
  all_eq : all = pagesFrom splitTemporal boundaries es 0
  header_eq : header = ⟨1, stride, UInt32.ofNat es.length,
    UInt32.ofNat (all.map temporalFormat.page).length,
    (linkTo first (all.map temporalFormat.page) 0).offset,
    UInt32.ofNat (linkTo first (all.map temporalFormat.page) 0).size⟩
  payload_eq : payload = header.write ++ (patchPages first (all.map temporalFormat.page)).flatten
  first_eq : first = evlrDataStart + UInt64.ofNat header.write.length
  length_lt : header.write.length + (pageSizes (all.map temporalFormat.page)).sum < 2 ^ 64
  root : (⟨header.rootPageOffset, header.rootPageSize.toNat⟩ : Link) =
    linkTo first (all.map temporalFormat.page) 0
  parses : ∀ rs ∈ all, ∀ r ∈ rs, temporalFormat.Parses parseTemporal
    (r.retarget (linkTo first (all.map temporalFormat.page)))

/-- A payload that is built is laid out in this way. -/
lemma temporalLayout_of_build (hne : es ≠ []) (hfits : ∀ e ∈ es, e.key.FitsI32)
    (hsamples : ∀ e ∈ es, e.samples ≠ [])
    (hsizes : ∀ built, temporalPages es = some built →
      ∀ page ∈ built.2, page.data.length < 2 ^ 32)
    {stride : UInt32} {evlrDataStart : UInt64} {payload : List UInt8}
    (h : buildTemporalPayload es stride evlrDataStart = some payload) :
    ∃ boundaries all first header,
      TemporalLayout es payload stride evlrDataStart boundaries all first header := by
  obtain ⟨boundaries, hbs⟩ : ∃ bs,
      choosePageBoundaries (maxLevelOf (es.map TemporalIndexEntry.key)) = some bs := by
    rw [buildTemporalPayload, if_neg (by rwa [List.isEmpty_iff])] at h
    obtain ⟨built, hbuilt, -⟩ := Option.bind_eq_some_iff.mp h
    obtain ⟨bs, hbs, -⟩ := Option.map_eq_some_iff.mp hbuilt
    exact ⟨bs, hbs⟩
  obtain ⟨hpages, hpayload⟩ := buildTemporalPayload_eq hne hbs stride evlrDataStart
  obtain ⟨all, hall⟩ : ∃ all, all = pagesFrom splitTemporal boundaries es 0 := ⟨_, rfl⟩
  obtain ⟨first, hfirst⟩ : ∃ first, first = evlrDataStart + UInt64.ofNat temporalHeaderSize :=
    ⟨_, rfl⟩
  have hsizes : ∀ rs ∈ all, (temporalFormat.page rs).data.length < 2 ^ 32 := fun rs hrs =>
    hsizes _ hpages _ (List.mem_map_of_mem (hall ▸ hrs))
  have hparse : ∀ rs ∈ pagesFrom splitTemporal boundaries es 0, ∀ r ∈ rs,
      temporalFormat.Parses parseTemporal (r.retarget (linkTo first
        ((pagesFrom splitTemporal boundaries es 0).map temporalFormat.page))) :=
    temporal_parses hfits hsamples (hall ▸ hsizes)
  rw [hpayload, ← hall, ← hfirst] at h
  rw [← hall] at hparse
  simp only at h
  split_ifs at h with hmax
  obtain ⟨header, hheader⟩ : ∃ header : TemporalIndexHeader, header =
      ⟨1, stride, UInt32.ofNat es.length, UInt32.ofNat (all.map temporalFormat.page).length,
        (linkTo first (all.map temporalFormat.page) 0).offset,
        UInt32.ofNat (linkTo first (all.map temporalFormat.page) 0).size⟩ := ⟨_, rfl⟩
  rw [← hheader] at h
  refine ⟨boundaries, all, first, header, hbs, hall, hheader, (Option.some.inj h).symm, ?_, ?_, ?_,
    hparse⟩
  · rw [header.length_write, hfirst]
  · rw [isizeMax] at hmax
    rw [header.length_write]
    omega
  · -- the root page is the first page
    have hpos : 0 < all.length := by
      rw [hall]
      exact List.length_pos_iff.mpr (pagesFrom_ne_nil _ _ _)
    have hsize := size_linkTo_eq (F := temporalFormat) first (List.getElem?_eq_getElem hpos)
    have hlt := hsizes _ (List.getElem_mem hpos)
    rw [← hsize] at hlt
    rw [hheader, UInt32.toNat_ofNat_of_lt' hlt]

/-- The payload is an index of its entries. -/
lemma temporalIndex_of_build (hne : es ≠ []) (hfits : ∀ e ∈ es, e.key.FitsI32)
    (hsamples : ∀ e ∈ es, e.samples ≠ [])
    (hsizes : ∀ built, temporalPages es = some built →
      ∀ page ∈ built.2, page.data.length < 2 ^ 32)
    {stride : UInt32} {evlrDataStart : UInt64} {payload : List UInt8}
    (h : buildTemporalPayload es stride evlrDataStart = some payload) :
    ∃ header, TemporalIndex es payload stride evlrDataStart header := by
  obtain ⟨boundaries, all, first, header, layout⟩ :=
    temporalLayout_of_build hne hfits hsamples hsizes h
  obtain ⟨pages, hwalk, hcount, hperm, htiles⟩ := exists_walk_readPage layout.all_eq
    splitTemporal_perm layout.first_eq layout.length_lt layout.parses
  have hheader := layout.header_eq
  obtain rfl := layout.payload_eq
  refine ⟨header, ⟨_, header.read_write _⟩, ?_, ?_, ?_, ⟨pages, boundaries.length + 1,
    fun fuel hfuel => ?_, ?_, hperm, ?_⟩, ?_⟩
  · rw [hheader]
  · rw [hheader]
  · rw [hheader]
  · rw [walkTemporal, layout.root]
    exact hwalk fuel hfuel
  · rw [hheader, hcount, List.length_map]
  · rwa [header.length_write] at htiles
  · -- the pages together are the records of all pages, one after the other
    have hrecords : ∀ r ∈ all.flatten.map
        (Record.retarget (linkTo first (all.map temporalFormat.page))),
        temporalFormat.Parses parseTemporal r := by
      intro r hr
      obtain ⟨r', hr', rfl⟩ := List.mem_map.mp hr
      obtain ⟨rs, hrs, hmem⟩ := List.mem_flatten.mp hr'
      exact layout.parses rs hrs r' hmem
    have hread := readRecords_encode hrecords le_rfl
    rw [← flatten_patchPages] at hread
    refine ⟨entries all.flatten, ?_, ?_⟩
    · simp only [scanTemporal, header.read_write, Option.bind_eq_bind, Option.bind_some, hread,
        entries_retarget]
    · rw [entries_flatten, layout.all_eq]
      exact pagesFrom_entries_perm splitTemporal_perm boundaries es 0

/-- **The temporal index is read back**, for all entries with samples whose pages are smaller than
`2 ^ 32` bytes.  The payload is built unless a level is the largest `i32` or the payload is larger
than a vector; and whenever it is built, readers find the entries in it. -/
theorem buildTemporalPayload_spec (hne : es ≠ []) (hfits : ∀ e ∈ es, e.key.FitsI32)
    (hsamples : ∀ e ∈ es, e.samples ≠ [])
    (hsizes : ∀ built, temporalPages es = some built →
      ∀ page ∈ built.2, page.data.length < 2 ^ 32)
    (stride : UInt32) (evlrDataStart : UInt64) :
    ((∀ e ∈ es, e.key.level < 2 ^ 31 - 1) →
      ∃ built, temporalPages es = some built ∧
        (temporalHeaderSize + (pageSizes built.2).sum ≤ isizeMax →
          ∃ payload, buildTemporalPayload es stride evlrDataStart = some payload)) ∧
    ∀ payload, buildTemporalPayload es stride evlrDataStart = some payload →
      ∃ header, TemporalIndex es payload stride evlrDataStart header := by
  refine ⟨fun hlevel => ?_, fun payload h => temporalIndex_of_build hne hfits hsamples hsizes h⟩
  obtain ⟨bs, hbs⟩ := exists_choosePageBoundaries (maxLevelOf_lt (by norm_num) fun k hk => by
    obtain ⟨e, he, rfl⟩ := List.mem_map.mp hk
    exact hlevel e he)
  obtain ⟨hpages, hpayload⟩ := buildTemporalPayload_eq hne hbs stride evlrDataStart
  refine ⟨_, hpages, fun hsum => ?_⟩
  rw [hpayload]
  exact ⟨_, if_pos hsum⟩

end Payload

/-! ## More entries than the header counts -/

/-- A node below the first boundary with one sample. -/
def deepEntry (i : ℕ) : TemporalIndexEntry := ⟨⟨4, 2 * i, 0, 0⟩, [⟨0⟩]⟩

/-- The nodes of `m` different subtrees, `n` times each. -/
def deepEntries (n : ℕ) : ℕ → List TemporalIndexEntry
  | 0 => []
  | m + 1 => deepEntries n m ++ List.replicate n (deepEntry m)

lemma length_deepEntries (n m : ℕ) : (deepEntries n m).length = m * n := by
  induction m with
  | zero => rw [deepEntries, List.length_nil, Nat.zero_mul]
  | succ m ih => rw [deepEntries, List.length_append, ih, List.length_replicate, Nat.succ_mul]

lemma mem_deepEntries {n m : ℕ} {e : TemporalIndexEntry} (h : e ∈ deepEntries n m) :
    ∃ i < m, e = deepEntry i := by
  induction m with
  | zero => cases h
  | succ m ih =>
    rcases List.mem_append.mp h with h | h
    · obtain ⟨i, hi, he⟩ := ih h
      exact ⟨i, by omega, he⟩
    · exact ⟨m, Nat.lt_succ_self m, List.eq_of_mem_replicate h⟩

lemma ancestorAt_deepEntry (i : ℕ) : ancestorAt (deepEntry i).key 3 = ⟨3, i, 0, 0⟩ := by
  have hlevel : 3 ≤ (deepEntry i).key.level := by
    change 3 ≤ 4
    norm_num
  have hx : (2 * i) >>> 1 = i := by
    rw [Nat.shiftRight_eq_div_pow]
    omega
  have hdepth : (deepEntry i).key.level - 3 = 1 := rfl
  have hkey : (deepEntry i).key = ⟨4, 2 * i, 0, 0⟩ := rfl
  rw [VoxelKey.ancestorAt_eq hlevel, hdepth, hkey, hx, Nat.zero_shiftRight]

/-- In every subtree there are at most `n` of the nodes. -/
lemma length_filter_deepEntries (n m : ℕ) (k : VoxelKey) :
    ((deepEntries n m).filter fun e => ancestorAt e.key 3 = k).length ≤ n := by
  induction m with
  | zero => exact Nat.zero_le n
  | succ m ih =>
    rw [deepEntries, List.filter_append, List.length_append]
    by_cases hk : ancestorAt (deepEntry m).key 3 = k
    · have hnone : (deepEntries n m).filter (fun e => ancestorAt e.key 3 = k) = [] := by
        rw [List.filter_eq_nil_iff]
        intro e he hek
        obtain ⟨i, hi, rfl⟩ := mem_deepEntries he
        have hsame := (of_decide_eq_true hek).trans hk.symm
        rw [ancestorAt_deepEntry, ancestorAt_deepEntry, VoxelKey.mk.injEq] at hsame
        omega
      rw [hnone, List.length_nil, Nat.zero_add]
      exact (List.length_filter_le _ _).trans (List.length_replicate).le
    · have hnone : (List.replicate n (deepEntry m)).filter
          (fun e => ancestorAt e.key 3 = k) = [] := by
        rw [List.filter_eq_nil_iff]
        intro e he
        rw [List.eq_of_mem_replicate he]
        simpa using hk
      rw [hnone, List.length_nil, Nat.add_zero]
      exact ih

/-- No page has more records than there are subtrees or nodes in a subtree. -/
lemma length_deep_page (n m : ℕ) : ∀ rs ∈ pagesFrom splitTemporal [3] (deepEntries n m) 0,
    rs.length ≤ max m n := by
  have hall : ∀ e ∈ deepEntries n m, e.key.level = 4 := by
    intro e he
    obtain ⟨i, -, rfl⟩ := mem_deepEntries he
    rfl
  have hown : (deepEntries n m).filter (fun e => e.key.level ≤ 3) = [] := by
    rw [List.filter_eq_nil_iff]
    intro e he
    rw [hall e he]
    decide
  have hrest : (deepEntries n m).filter (fun e => ¬ e.key.level ≤ 3) = deepEntries n m := by
    rw [List.filter_eq_self]
    intro e he
    rw [hall e he]
    decide
  intro rs hrs
  rw [pagesFrom, List.mem_cons] at hrs
  simp only [splitTemporal, hown, hrest] at hrs
  rcases hrs with rfl | hrs
  · -- the root page has a pointer for every subtree
    rw [List.map_nil, List.nil_append, (childPages_pointers _ _ _).1, List.length_map]
    have hsub : (childGroups TemporalIndexEntry.key 3 (deepEntries n m)).map Prod.fst ⊆
        (List.range m).map fun i => (⟨3, i, 0, 0⟩ : VoxelKey) := by
      intro k hk
      obtain ⟨g, hg, rfl⟩ := List.mem_map.mp hk
      obtain ⟨⟨e, he, hkey⟩, -⟩ := mem_childGroups.mp hg
      obtain ⟨i, hi, rfl⟩ := mem_deepEntries he
      rw [← hkey, ancestorAt_deepEntry]
      exact List.mem_map_of_mem (List.mem_range.mpr hi)
    have hle := (List.subperm_of_subset (nodup_childGroups _) hsub).length_le
    rw [List.length_map, List.length_map, List.length_range] at hle
    exact hle.trans (le_max_left m n)
  · obtain ⟨g, hg, i, hmem⟩ := exists_of_mem_childPages hrs
    obtain ⟨g', hg', rfl⟩ := List.mem_map.mp hg
    obtain rfl := List.mem_singleton.mp hmem
    rw [List.length_map, (mem_childGroups.mp hg').2]
    exact (length_filter_deepEntries n m g'.1).trans (le_max_right m n)

/-- A page of nodes with at most three samples each has at most 48 bytes for every record. -/
lemma size_page_le {rs : List (Record TemporalIndexEntry SubtreeTimes ℕ)}
    (h : ∀ r ∈ rs, r.Satisfies (fun e => e.samples.length ≤ 3) fun _ => True) :
    (temporalFormat.page rs).data.length ≤ 48 * rs.length := by
  have hdata : (temporalFormat.page rs).data = rs.flatMap temporalFormat.reserve := rfl
  rw [hdata]
  clear hdata
  induction rs with
  | nil => exact le_rfl
  | cons r rs ih =>
    have hr : (temporalFormat.reserve r).length ≤ 48 := by
      have hr := h r List.mem_cons_self
      cases r with
      | entry e =>
        have hfew : e.samples.length ≤ 3 := hr
        change (e.key.bytes ++ (Bytes.toLE 4 e.samples.length ++
          e.samples.flatMap f64Bytes)).length ≤ 48
        simp only [List.length_append, VoxelKey.length_bytes, Bytes.length_toLE,
          length_flatMap_f64Bytes]
        omega
      | pointer t i =>
        simp [Format.reserve, Record.retarget, Format.encode, temporalFormat, f64Bytes]
    have hrest := ih fun r hr => h r (List.mem_cons_of_mem _ hr)
    rw [List.flatMap_cons, List.length_append, List.length_cons]
    omega

/-- When the nodes have few samples each, so have all entries of the pages. -/
lemma satisfies_few_samples {es : List TemporalIndexEntry} (h : ∀ e ∈ es, e.samples.length ≤ 3)
    (bs : List ℕ) : ∀ rs ∈ pagesFrom splitTemporal bs es 0, ∀ r ∈ rs,
      r.Satisfies (fun e => e.samples.length ≤ 3) fun _ => True :=
  pagesFrom_satisfies (fun _ _ hes => ⟨fun e he => hes e (List.mem_filter.mp he).1,
    fun _ hg => ⟨trivial, fun e he => hes e ((mem_splitTemporal hg).2.2.1.subset he)⟩⟩) bs h 0

/-- The pages of nodes with few samples each have at most 48 bytes for every record. -/
lemma sum_size_le {es : List TemporalIndexEntry} (h : ∀ e ∈ es, e.samples.length ≤ 3)
    (bs : List ℕ) :
    (pageSizes ((pagesFrom splitTemporal bs es 0).map temporalFormat.page)).sum ≤
      48 * (es.length * (bs.length + 1)) := by
  have hrecords := pagesFrom_length_le splitTemporal_perm
    (fun b es g hg => (mem_splitTemporal hg).2.1) bs es 0
  have htotal : (pageSizes ((pagesFrom splitTemporal bs es 0).map temporalFormat.page)).sum ≤
      48 * ((pagesFrom splitTemporal bs es 0).map List.length).sum := by
    rw [pageSizes, List.map_map, ← List.sum_map_mul_left]
    exact List.sum_le_sum fun rs hrs => size_page_le (satisfies_few_samples h bs rs hrs)
  exact htotal.trans (Nat.mul_le_mul_left 48 hrecords)

/-- Four levels have one boundary. -/
lemma choosePageBoundaries_four : choosePageBoundaries 4 = some [3] := by
  rw [choosePageBoundaries, boundaryLoop, if_pos (by norm_num), if_pos (by norm_num), boundaryLoop,
    if_neg (by norm_num)]
  rfl

/-- The pages of nodes on four levels, with few samples each, are small. -/
lemma sum_pageSizes_le {es : List TemporalIndexEntry} (hne : es ≠ [])
    (hlevel : maxLevelOf (es.map TemporalIndexEntry.key) = 4)
    (hfew : ∀ e ∈ es, e.samples.length ≤ 3) {built : ℕ × List Page}
    (h : temporalPages es = some built) : (pageSizes built.2).sum ≤ 96 * es.length := by
  rw [(buildTemporalPayload_eq hne (hlevel ▸ choosePageBoundaries_four) 0 0).1] at h
  obtain rfl := Option.some.inj h
  have hsum := sum_size_le hfew [3]
  rw [List.length_singleton] at hsum
  exact hsum.trans_eq (by ring)

/-- Their index is written when there are not very many of them. -/
lemma exists_buildTemporalPayload {es : List TemporalIndexEntry} (hne : es ≠ [])
    (hlevel : maxLevelOf (es.map TemporalIndexEntry.key) = 4)
    (hfew : ∀ e ∈ es, e.samples.length ≤ 3) (hlen : es.length < 2 ^ 32) (stride : UInt32)
    (evlrDataStart : UInt64) :
    ∃ payload, buildTemporalPayload es stride evlrDataStart = some payload := by
  have hbs := hlevel ▸ choosePageBoundaries_four
  have hsum := sum_size_le hfew [3]
  rw [(buildTemporalPayload_eq hne hbs stride evlrDataStart).2]
  refine ⟨_, if_pos ?_⟩
  rw [temporalHeaderSize, isizeMax]
  rw [List.length_singleton] at hsum
  omega

section Deep

variable {n m : ℕ}

lemma deepEntries_ne_nil (hn : 0 < n) (hm : 0 < m) : deepEntries n m ≠ [] := by
  apply List.ne_nil_of_length_pos
  rw [length_deepEntries]
  exact Nat.mul_pos hm hn

lemma length_samples_deep : ∀ e ∈ deepEntries n m, e.samples.length ≤ 3 := by
  intro e he
  obtain ⟨i, -, rfl⟩ := mem_deepEntries he
  exact Nat.le_add_left 1 2

/-- There is one boundary. -/
lemma choosePageBoundaries_deep (hn : 0 < n) (hm : 0 < m) :
    choosePageBoundaries (maxLevelOf ((deepEntries n m).map TemporalIndexEntry.key)) =
      some [3] := by
  have hfour : ∀ k ∈ (deepEntries n m).map TemporalIndexEntry.key, k.level = 4 := by
    intro k hk
    obtain ⟨e, he, rfl⟩ := List.mem_map.mp hk
    obtain ⟨i, -, rfl⟩ := mem_deepEntries he
    rfl
  have hmax : maxLevelOf ((deepEntries n m).map TemporalIndexEntry.key) = 4 := by
    obtain ⟨e, he⟩ := List.exists_mem_of_ne_nil _ (deepEntries_ne_nil hn hm)
    have hmem := List.mem_map_of_mem (f := TemporalIndexEntry.key) he
    have hle := level_le_maxLevelOf hmem
    have hlt := maxLevelOf_lt (n := 5) (by norm_num) fun k hk => (hfour k hk).trans_lt (by norm_num)
    rw [hfour _ hmem] at hle
    omega
  rw [hmax, choosePageBoundaries_four]

/-- Every page is small when there are few subtrees, and few nodes in each. -/
lemma size_deep_page (hn : 0 < n) (hm : 0 < m) {built : ℕ × List Page}
    (h : temporalPages (deepEntries n m) = some built) :
    ∀ page ∈ built.2, page.data.length ≤ 48 * max m n := by
  obtain ⟨hpages, -⟩ := buildTemporalPayload_eq (deepEntries_ne_nil hn hm)
    (choosePageBoundaries_deep hn hm) 0 0
  rw [hpages] at h
  obtain rfl := Option.some.inj h
  intro page hpage
  obtain ⟨rs, hrs, rfl⟩ := List.mem_map.mp hpage
  exact (size_page_le (satisfies_few_samples length_samples_deep [3] rs hrs)).trans
    (Nat.mul_le_mul_left 48 (length_deep_page n m rs hrs))

/-- The pages together have at most 48 bytes for every record. -/
lemma sum_size_deep_le (hn : 0 < n) (hm : 0 < m) {built : ℕ × List Page}
    (h : temporalPages (deepEntries n m) = some built) :
    (pageSizes built.2).sum ≤ 48 * (m * n * 2) := by
  obtain ⟨hpages, -⟩ := buildTemporalPayload_eq (deepEntries_ne_nil hn hm)
    (choosePageBoundaries_deep hn hm) 0 0
  rw [hpages] at h
  obtain rfl := Option.some.inj h
  have hsum := sum_size_le (length_samples_deep (n := n) (m := m)) [3]
  rwa [length_deepEntries, List.length_singleton] at hsum

lemma deepEntries_valid (hm : m < 2 ^ 30) :
    (∀ e ∈ deepEntries n m, e.key.FitsI32 ∧ e.key.level < 2 ^ 31 - 1) ∧
      ∀ e ∈ deepEntries n m, e.samples ≠ [] := by
  constructor
  · intro e he
    obtain ⟨i, hi, rfl⟩ := mem_deepEntries he
    change (4 < 2 ^ 31 ∧ 2 * i < 2 ^ 31 ∧ 0 < 2 ^ 31 ∧ 0 < 2 ^ 31) ∧ 4 < 2 ^ 31 - 1
    omega
  · intro e he
    obtain ⟨i, -, rfl⟩ := mem_deepEntries he
    exact List.cons_ne_nil _ _

end Deep

/-- Two nodes below the first boundary, in different subtrees. -/
theorem buildTemporalPayload_two : ∃ payload header,
    buildTemporalPayload (deepEntries 1 2) 10 1000 = some payload ∧
      TemporalIndex (deepEntries 1 2) payload 10 1000 header := by
  obtain ⟨hkeys, hsamples⟩ := deepEntries_valid (n := 1) (m := 2) (by norm_num)
  obtain ⟨hbuilt, hindex⟩ := buildTemporalPayload_spec (deepEntries_ne_nil one_pos two_pos)
    (fun e he => (hkeys e he).1) hsamples
    (fun built h page hpage => (size_deep_page one_pos two_pos h page hpage).trans_lt (by norm_num))
    10 1000
  obtain ⟨built, hpages, hpayload⟩ := hbuilt fun e he => (hkeys e he).2
  have hsum := sum_size_deep_le one_pos two_pos hpages
  obtain ⟨payload, h⟩ := hpayload (by rw [temporalHeaderSize, isizeMax]; omega)
  obtain ⟨header, hheader⟩ := hindex payload h
  exact ⟨payload, header, h, hheader⟩

/-- There can be `2 ^ 32` nodes in pages of less than `2 ^ 32` bytes; then the header counts
none. -/
theorem nodeCount_wraps : ∃ es : List TemporalIndexEntry, es ≠ [] ∧ (∀ e ∈ es, e.key.FitsI32) ∧
    (∀ e ∈ es, e.samples ≠ []) ∧
    (∀ built, temporalPages es = some built → ∀ page ∈ built.2, page.data.length < 2 ^ 32) ∧
    ∃ payload header rest, buildTemporalPayload es 10 1000 = some payload ∧
      TemporalIndexHeader.read payload = some (header, rest) ∧
      header.nodeCount.toNat ≠ es.length := by
  obtain ⟨n, hn⟩ : ∃ n, n = 2 ^ 26 := ⟨_, rfl⟩
  have hpos : 0 < n := by omega
  have hlength : (deepEntries n 64).length = 2 ^ 32 := by
    rw [length_deepEntries, hn]
    norm_num
  obtain ⟨hkeys, hsamples⟩ := deepEntries_valid (n := n) (m := 64) (by norm_num)
  have hne := deepEntries_ne_nil (m := 64) hpos (by norm_num)
  obtain ⟨hpages, hpayload⟩ := buildTemporalPayload_eq hne
    (choosePageBoundaries_deep hpos (by norm_num)) 10 1000
  refine ⟨deepEntries n 64, hne, fun e he => (hkeys e he).1, hsamples,
    fun built hbuilt page hpage => ?_, ?_⟩
  · have hsize := size_deep_page hpos (by norm_num) hbuilt page hpage
    omega
  · have hsum := sum_size_deep_le hpos (by norm_num) hpages
    simp only at hsum
    rw [hpayload]
    simp only
    rw [if_pos (by rw [temporalHeaderSize, isizeMax]; omega)]
    refine ⟨_, _, _, rfl, TemporalIndexHeader.read_write _ _, ?_⟩
    rw [hlength]
    change (UInt32.ofNat (2 ^ 32)).toNat ≠ 2 ^ 32
    decide

end CopcConverter
