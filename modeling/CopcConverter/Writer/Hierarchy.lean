import CopcConverter.Writer.PageBoundaries

/-!
# The hierarchy of the output

`build_hierarchy_payload` writes one record of 32 bytes for every node, in pages of three levels.
Entries above a boundary stay in a page, and the entry of a node at the boundary moves to the child
page of its subtree; the parent page keeps a pointer to that page, a record whose number of points
is -1.

The function returns unless the deepest level is the largest `i32` or the payload exceeds the
largest allocation.  Whenever it returns, the pages lie one after the other and fill the payload, a
reader that follows the pointers from the root page finds every entry once, and one that looks for a
key descends from page to page and finds its entry.  The proofs instantiate the general theory of
page trees with the records of the hierarchy.
-/

namespace CopcConverter

open LevelTree PageTree PageBytes

/-! ## Records -/

/-- The number as its two's complement. -/
def i32Bytes (n : Int32) : List UInt8 := Bytes.toLE 4 n.toUInt32.toNat

/-- One record in a page of the hierarchy (32 bytes). -/
structure HierarchyEntry where
  key : VoxelKey
  /-- Byte offset of the chunk in the file (0 without data). -/
  offset : UInt64
  /-- Byte size of the compressed chunk. -/
  byteSize : Int32
  /-- Number of points in the chunk (-1 in a pointer). -/
  pointCount : Int32
  deriving DecidableEq

namespace HierarchyEntry

/-- The bytes of a record. -/
def write (e : HierarchyEntry) : List UInt8 :=
  e.key.bytes ++ (Bytes.u64 e.offset ++ (i32Bytes e.byteSize ++ i32Bytes e.pointCount))

/-- Read a record from the front. -/
def read (bs : List UInt8) : Option (HierarchyEntry × List UInt8) := do
  let (key, bs) ← VoxelKey.read bs
  let (offset, bs) ← Bytes.readLE 8 bs
  let (byteSize, bs) ← Bytes.readLE 4 bs
  let (pointCount, bs) ← Bytes.readLE 4 bs
  some (⟨key, UInt64.ofNat offset, (UInt32.ofNat byteSize).toInt32,
    (UInt32.ofNat pointCount).toInt32⟩, bs)

@[simp] lemma length_write (e : HierarchyEntry) : e.write.length = 32 := by
  simp [write, i32Bytes]

/-- A record is read back from the front. -/
lemma read_write {e : HierarchyEntry} (h : e.key.FitsI32) (rest : List UInt8) :
    read (e.write ++ rest) = some (e, rest) := by
  have hoffset := Bytes.readLE_append (w := 8) e.offset.toNat_lt
  have hsize := Bytes.readLE_append (w := 4) e.byteSize.toUInt32.toNat_lt
  have hcount := Bytes.readLE_append (w := 4) e.pointCount.toUInt32.toNat_lt
  simp only [read, write, i32Bytes, Bytes.u64, List.append_assoc, VoxelKey.read_bytes h, hoffset,
    hsize, hcount, Option.bind_eq_bind, Option.bind_some, UInt64.ofNat_toNat, UInt32.ofNat_toNat,
    Int32.toInt32_toUInt32]

end HierarchyEntry

/-! ## Building -/

/-- Entries above the boundary stay; the others are grouped by their ancestor at the boundary. -/
def splitHierarchy (boundary : ℕ) (es : List HierarchyEntry) :
    List HierarchyEntry × List (VoxelKey × List HierarchyEntry) :=
  (es.filter fun e => e.key.level < boundary,
    childGroups HierarchyEntry.key boundary (es.filter fun e => ¬ e.key.level < boundary))

/-- Append the pointer to a child page: a record without points whose offset and size, at bytes 16
to 28, are patched later. -/
def addHierarchyPointer (page : Page) (child : VoxelKey × ℕ) : Page where
  data := page.data ++ HierarchyEntry.write ⟨child.1, 0, 0, -1⟩
  pointerPatches := page.pointerPatches ++ [(page.data.length + 16, child.2)]

/-- Build the pages for some entries behind the pages so far; the number of their first page. -/
def buildHierarchyPage : List ℕ → List HierarchyEntry → List Page → ℕ × List Page
  | [], es, pages => (pages.length, pages ++ [⟨es.flatMap HierarchyEntry.write, []⟩])
  | boundary :: boundaries, es, pages =>
    if es.isEmpty then (pages.length, pages ++ [⟨es.flatMap HierarchyEntry.write, []⟩])
    else
      let thisPageEntries := (splitHierarchy boundary es).1
      -- a slot for this page is reserved before its children are built
      let built := buildChildren (buildHierarchyPage boundaries) (splitHierarchy boundary es).2
        (pages ++ [⟨[], []⟩])
      let page := built.1.foldl addHierarchyPointer
        ⟨thisPageEntries.flatMap HierarchyEntry.write, []⟩
      (pages.length, built.2.set pages.length page)

/-- The most bytes a vector holds. -/
def isizeMax : ℕ := 2 ^ 63 - 1

/-- The payload of the hierarchy record and the position and the size of its root page; none when
the levels overflow, or the payload does not fit a vector. -/
def buildHierarchyPayload (es : List HierarchyEntry) (evlrDataStart : UInt64) :
    Option (List UInt8 × UInt64 × UInt64) :=
  if es.isEmpty then some ([], evlrDataStart, 0)
  else
    (choosePageBoundaries (maxLevelOf (es.map HierarchyEntry.key))).bind fun boundaries =>
      let built := buildHierarchyPage boundaries es []
      if (pageSizes built.2).sum ≤ isizeMax then
        some ((patchPages evlrDataStart built.2).flatten,
          (linkTo evlrDataStart built.2 built.1).offset,
          UInt64.ofNat (linkTo evlrDataStart built.2 built.1).size)
      else none

/-! ## Reading -/

/-- Read a record: a pointer when its number of points is -1. -/
def parseHierarchy (bs : List UInt8) :
    Option (Record HierarchyEntry VoxelKey Link × List UInt8) :=
  (HierarchyEntry.read bs).map fun r =>
    (if r.1.pointCount = -1 then .pointer r.1.key ⟨r.1.offset, r.1.byteSize.toNatClampNeg⟩
      else .entry r.1, r.2)

/-- The pages from the root page on, with their records. -/
def walkHierarchy (payload : List UInt8) (evlrDataStart rootOffset rootSize : UInt64) (fuel : ℕ) :
    Option (List (Link × List (Record HierarchyEntry VoxelKey Link))) :=
  walk (readPage parseHierarchy payload evlrDataStart) fuel ⟨rootOffset, rootSize.toNat⟩

/-- The entry of a key: in each page the key's own record, or else the only pointer whose key is the
key or an ancestor of it. -/
def lookupHierarchy (payload : List UInt8) (evlrDataStart rootOffset rootSize : UInt64)
    (key : VoxelKey) (fuel : ℕ) : Option HierarchyEntry :=
  seek (readPage parseHierarchy payload evlrDataStart) (fun e => e.key = key)
    (fun a => IsAncestor a key) fuel ⟨rootOffset, rootSize.toNat⟩

/-! ## The bytes of the pages -/

/-- How the records of the hierarchy are written. -/
def hierarchyFormat : Format HierarchyEntry VoxelKey where
  entryBytes := HierarchyEntry.write
  head := VoxelKey.bytes
  tail _ := i32Bytes (-1)

/-- A pointer is appended as the format writes it. -/
lemma addHierarchyPointer_eq : addHierarchyPointer = hierarchyFormat.addPointer := by
  funext page child
  have hzero : i32Bytes 0 = Bytes.toLE 4 0 := rfl
  simp [addHierarchyPointer, Format.addPointer, Format.reserve, Record.retarget, Format.encode,
    hierarchyFormat, HierarchyEntry.write, Link.bytes, hzero]

/-- Building appends the pages of the page tree, written as bytes. -/
lemma buildHierarchyPage_eq (boundaries : List ℕ) (es : List HierarchyEntry) (pages : List Page) :
    buildHierarchyPage boundaries es pages = (pages.length,
      pages ++ (pagesFrom splitHierarchy boundaries es pages.length).map hierarchyFormat.page) := by
  induction boundaries generalizing es pages with
  | nil =>
    rw [buildHierarchyPage, pagesFrom, List.map_singleton, hierarchyFormat.page_entries]
    rfl
  | cons boundary boundaries ih =>
    rw [buildHierarchyPage]
    split_ifs with hempty
    · obtain rfl := List.isEmpty_iff.mp hempty
      have hnone : splitHierarchy boundary [] = ([], []) := Prod.ext rfl childGroups_nil
      rw [pagesFrom, hnone]
      rfl
    · obtain ⟨hpointers, hpages⟩ := buildChildren_eq ih (splitHierarchy boundary es).2
        (pages ++ [⟨[], []⟩])
      have hlen : (pages ++ [(⟨[], []⟩ : Page)]).length = pages.length + 1 := by simp
      rw [hlen] at hpointers hpages
      have hentries : (⟨(splitHierarchy boundary es).1.flatMap HierarchyEntry.write, []⟩ : Page) =
          hierarchyFormat.page ((splitHierarchy boundary es).1.map .entry) :=
        (hierarchyFormat.page_entries _).symm
      simp only
      rw [hpages, hentries, addHierarchyPointer_eq, hierarchyFormat.foldl_addPointer, hpointers,
        pagesFrom, List.map_cons, List.append_assoc, List.set_append_right _ _ le_rfl, Nat.sub_self]
      rfl

/-- Every record is 32 bytes long. -/
lemma length_encode_hierarchy (r : Record HierarchyEntry VoxelKey Link) :
    (hierarchyFormat.encode r).length = 32 := by
  cases r with
  | entry e => exact e.length_write
  | pointer key link => simp [Format.encode, hierarchyFormat, i32Bytes]

lemma size_hierarchyPage (rs : List (Record HierarchyEntry VoxelKey ℕ)) :
    (hierarchyFormat.page rs).data.length = 32 * rs.length := by
  have hdata : (hierarchyFormat.page rs).data = rs.flatMap hierarchyFormat.reserve := rfl
  rw [hdata]
  induction rs with
  | nil => rfl
  | cons r rs ih =>
    have hr : (hierarchyFormat.reserve r).length = 32 := length_encode_hierarchy _
    rw [List.flatMap_cons, List.length_append, ih rfl, hr, List.length_cons]
    omega

/-! ## Splitting -/

section Splitting

variable {boundary : ℕ} {es : List HierarchyEntry}

/-- Splitting loses no entry. -/
lemma splitHierarchy_perm (boundary : ℕ) (es : List HierarchyEntry) :
    ((splitHierarchy boundary es).1 ++
      (splitHierarchy boundary es).2.flatMap Prod.snd).Perm es := by
  refine ((childGroups_perm _).append_left _).trans ?_
  simp only [splitHierarchy, decide_not]
  exact List.filter_append_perm (fun e => decide (e.key.level < boundary)) es

/-- The entries that are grouped are not above the boundary. -/
lemma boundary_le_of_grouped {e : HierarchyEntry}
    (h : e ∈ es.filter fun e => ¬ e.key.level < boundary) : boundary ≤ e.key.level := by
  simpa using (List.mem_filter.mp h).2

lemma mem_splitHierarchy {g : VoxelKey × List HierarchyEntry}
    (h : g ∈ (splitHierarchy boundary es).2) :
    g.1.level = boundary ∧ g.2 ≠ [] ∧ g.2.Sublist es ∧ ∀ e ∈ g.2, IsAncestor g.1 e.key := by
  obtain ⟨hlevel, hne, hsub, hbelow⟩ := childGroups_spec (fun e he => boundary_le_of_grouped he) h
  exact ⟨hlevel, hne, hsub.trans List.filter_sublist, hbelow⟩

/-- An entry that does not stay is in one group, the only one whose key is an ancestor of it. -/
lemma splitHierarchy_leads {e : HierarchyEntry} (he : e ∈ es)
    (hstay : e ∉ (splitHierarchy boundary es).1) :
    ∃ g, (splitHierarchy boundary es).2.filter (fun g => decide (IsAncestor g.1 e.key)) = [g] ∧
      e ∈ g.2 := by
  refine childGroups_leads (fun e he => boundary_le_of_grouped he) (List.mem_filter.mpr ⟨he, ?_⟩)
  have hlevel : ¬ e.key.level < boundary := fun hlt =>
    hstay (List.mem_filter.mpr ⟨he, decide_eq_true hlt⟩)
  exact decide_eq_true hlevel

end Splitting

/-! ## Page sizes -/

/-- A page for a subtree whose boundaries are three levels apart has at most 585 records. -/
lemma length_subtree_page {maxLevel : ℕ} {k : VoxelKey} {boundaries : List ℕ}
    (hladder : Ladder maxLevel (k.level + 3) boundaries) {es : List HierarchyEntry}
    (hes : ∀ e ∈ es, IsAncestor k e.key ∧ e.key.level ≤ maxLevel)
    (hnodup : (es.map HierarchyEntry.key).Nodup) (base : ℕ) :
    ∀ rs ∈ pagesFrom splitHierarchy boundaries es base, rs.length ≤ 585 := by
  induction boundaries generalizing k es base with
  | nil =>
    intro rs hrs
    obtain rfl := List.mem_singleton.mp hrs
    have hle : maxLevel ≤ k.level + 3 := hladder
    rw [List.length_map, ← List.length_map HierarchyEntry.key]
    refine length_le_of_below (k := k) hnodup fun j hj => ?_
    obtain ⟨e, he, rfl⟩ := List.mem_map.mp hj
    exact ⟨(hes e he).1, (hes e he).2.trans hle⟩
  | cons b bs ih =>
    obtain ⟨rfl, hlt, hrest⟩ := hladder
    intro rs hrs
    rw [pagesFrom, List.mem_cons] at hrs
    rcases hrs with rfl | hrs
    · -- the keys of the entries are above the boundary, those of the pointers at it
      rw [List.length_append, List.length_map, (childPages_pointers _ _ _).1,
        ← List.length_map HierarchyEntry.key, ← List.length_map (f := Prod.fst),
        ← List.length_append]
      refine length_le_of_below (k := k) ?_ fun j hj => ?_
      · refine List.nodup_append.mpr ⟨?_, nodup_childGroups _, ?_⟩
        · exact (List.filter_sublist.map _).nodup hnodup
        · intro j hj i hi hij
          obtain ⟨e, he, rfl⟩ := List.mem_map.mp hj
          obtain ⟨g, hg, rfl⟩ := List.mem_map.mp hi
          have habove := of_decide_eq_true (List.mem_filter.mp he).2
          have hat := (mem_splitHierarchy hg).1
          rw [hij, hat] at habove
          exact lt_irrefl _ habove
      · rcases List.mem_append.mp hj with hj | hj
        · obtain ⟨e, he, rfl⟩ := List.mem_map.mp hj
          obtain ⟨hmem, habove⟩ := List.mem_filter.mp he
          exact ⟨(hes e hmem).1, (of_decide_eq_true habove).le⟩
        · obtain ⟨g, hg, rfl⟩ := List.mem_map.mp hj
          obtain ⟨hat, hne, hsub, hbelow⟩ := mem_splitHierarchy hg
          obtain ⟨e, he⟩ := List.exists_mem_of_ne_nil _ hne
          refine ⟨(hes e (hsub.subset he)).1.of_level_le (hbelow e he) ?_, hat.le⟩
          exact (Nat.le_add_right _ _).trans hat.ge
    · obtain ⟨g, hg, i, hrs⟩ := exists_of_mem_childPages hrs
      obtain ⟨hat, -, hsub, hbelow⟩ := mem_splitHierarchy hg
      refine ih (k := g.1) (by rwa [hat]) (fun e he => ?_) ((hsub.map _).nodup hnodup) i rs hrs
      exact ⟨hbelow e he, (hes e (hsub.subset he)).2⟩

/-- All pages but the root page have at most 585 records. -/
lemma length_child_page {maxLevel : ℕ} {boundaries : List ℕ}
    (hladder : Ladder maxLevel 3 boundaries) {es : List HierarchyEntry}
    (hes : ∀ e ∈ es, e.key.level ≤ maxLevel) (hnodup : (es.map HierarchyEntry.key).Nodup) {i : ℕ}
    (hi : 0 < i) {rs : List (Record HierarchyEntry VoxelKey ℕ)}
    (hrs : (pagesFrom splitHierarchy boundaries es 0)[i]? = some rs) : rs.length ≤ 585 := by
  obtain ⟨i, rfl⟩ : ∃ j, i = j + 1 := ⟨i - 1, by omega⟩
  cases boundaries with
  | nil => cases hrs
  | cons b bs =>
    obtain ⟨rfl, hlt, hrest⟩ := hladder
    rw [pagesFrom, List.getElem?_cons_succ] at hrs
    obtain ⟨g, hg, j, hmem⟩ := exists_of_mem_childPages (List.mem_of_getElem? hrs)
    obtain ⟨hat, -, hsub, hbelow⟩ := mem_splitHierarchy hg
    refine length_subtree_page (k := g.1) (by rwa [hat]) (fun e he => ?_)
      ((hsub.map _).nodup hnodup) j rs hmem
    exact ⟨hbelow e he, hes e (hsub.subset he)⟩

/-- The pages together are 32 bytes for every record. -/
lemma sum_pageSizes (all : List (List (Record HierarchyEntry VoxelKey ℕ))) :
    (pageSizes (all.map hierarchyFormat.page)).sum = 32 * (all.map List.length).sum := by
  induction all with
  | nil => rfl
  | cons rs all ih =>
    have hcons : pageSizes ((rs :: all).map hierarchyFormat.page) =
        (hierarchyFormat.page rs).data.length :: pageSizes (all.map hierarchyFormat.page) := rfl
    rw [hcons, List.sum_cons, ih, size_hierarchyPage, List.map_cons, List.sum_cons]
    omega

/-! ## Reading back -/

/-- An entry is read back, because its number of points is not negative. -/
lemma parses_entry {e : HierarchyEntry} (hfits : e.key.FitsI32) (hcount : 0 ≤ e.pointCount) :
    hierarchyFormat.Parses parseHierarchy (.entry e) where
  ne_nil := List.ne_nil_of_length_pos (by rw [length_encode_hierarchy]; omega)
  parse_eq rest := by
    have hne : e.pointCount ≠ -1 := by
      intro h
      rw [h] at hcount
      exact absurd hcount (by decide)
    change (HierarchyEntry.read (e.write ++ rest)).map _ = _
    rw [HierarchyEntry.read_write hfits, Option.map_some, if_neg hne]

/-- A pointer is read back, when the size of its target is not negative as an `i32`. -/
lemma parses_pointer {key : VoxelKey} {link : Link} (hfits : key.FitsI32)
    (hsize : link.size < 2 ^ 31) :
    hierarchyFormat.Parses parseHierarchy (.pointer key link) where
  ne_nil := List.ne_nil_of_length_pos (by rw [length_encode_hierarchy]; omega)
  parse_eq rest := by
    have hbytes : hierarchyFormat.encode (.pointer key link) =
        HierarchyEntry.write ⟨key, link.offset, (UInt32.ofNat link.size).toInt32, -1⟩ := by
      have hi32 : i32Bytes (UInt32.ofNat link.size).toInt32 = Bytes.toLE 4 link.size := by
        rw [i32Bytes, UInt32.toUInt32_toInt32, UInt32.toNat_ofNat_of_lt' (hsize.trans (by decide))]
      rw [HierarchyEntry.write, hi32]
      simp [Format.encode, hierarchyFormat, Link.bytes]
    have hlink : (UInt32.ofNat link.size).toInt32.toNatClampNeg = link.size := by
      rw [UInt32.toInt32_ofNat', Int32.toNatClampNeg_ofNat_of_lt hsize]
    have hread := HierarchyEntry.read_write
      (e := ⟨key, link.offset, (UInt32.ofNat link.size).toInt32, -1⟩) hfits rest
    rw [hbytes, parseHierarchy, hread, Option.map_some, if_pos rfl, hlink]

/-- What readers make of a payload: following the pointers from the root page ends and gives the
entries, each once; the pages lie one after the other and are the payload; and looking for the key
of an entry finds the entry. -/
structure HierarchyIndex (es : List HierarchyEntry) (payload : List UInt8)
    (evlrDataStart rootOffset rootSize : UInt64) : Prop where
  walked : ∃ pages n, (∀ fuel, n ≤ fuel →
      walkHierarchy payload evlrDataStart rootOffset rootSize fuel = some pages) ∧
    (pages.flatMap fun page => entries page.2).Perm es ∧
    Tiles evlrDataStart 0 (pages.map Prod.fst) payload.length
  found : ∀ e ∈ es, ∃ n, ∀ fuel, n ≤ fuel →
    lookupHierarchy payload evlrDataStart rootOffset rootSize e.key fuel = some e

/-- Without entries there is one page, and it is empty. -/
lemma hierarchyIndex_nil (evlrDataStart : UInt64) :
    HierarchyIndex [] [] evlrDataStart evlrDataStart 0 where
  walked := by
    have hroot : readPage parseHierarchy [] evlrDataStart ⟨evlrDataStart, 0⟩ = some [] := by
      simp [readPage, readRecords, Bytes.slice]
    refine ⟨[(⟨evlrDataStart, 0⟩, [])], 1, fun fuel hfuel => ?_, List.Perm.refl _, ?_⟩
    · obtain ⟨fuel, rfl⟩ : ∃ n, fuel = n + 1 := ⟨fuel - 1, by omega⟩
      have hzero : (0 : UInt64).toNat = 0 := rfl
      rw [walkHierarchy, hzero, walk, hroot]
      rfl
    · simp [Tiles]
  found e he := by cases he

section Payload

variable {es : List HierarchyEntry} {boundaries : List ℕ} {evlrDataStart : UInt64}

/-- All records of the pages are read back. -/
lemma hierarchy_parses (hnodup : (es.map HierarchyEntry.key).Nodup)
    (hfits : ∀ e ∈ es, e.key.FitsI32) (hcount : ∀ e ∈ es, 0 ≤ e.pointCount)
    (hladder : Ladder (maxLevelOf (es.map HierarchyEntry.key)) 3 boundaries) :
    ∀ rs ∈ pagesFrom splitHierarchy boundaries es 0, ∀ r ∈ rs,
      hierarchyFormat.Parses parseHierarchy (r.retarget (linkTo evlrDataStart
        ((pagesFrom splitHierarchy boundaries es 0).map hierarchyFormat.page))) := by
  have hsat : ∀ rs ∈ pagesFrom splitHierarchy boundaries es 0, ∀ r ∈ rs,
      r.Satisfies (fun e => e.key.FitsI32 ∧ 0 ≤ e.pointCount) VoxelKey.FitsI32 := by
    refine pagesFrom_satisfies (fun b es hes =>
      ⟨fun e he => hes e (List.mem_filter.mp he).1, fun g hg => ?_⟩) boundaries
      (fun e he => ⟨hfits e he, hcount e he⟩) 0
    obtain ⟨-, hne, hsub, hbelow⟩ := mem_splitHierarchy hg
    obtain ⟨e, he⟩ := List.exists_mem_of_ne_nil _ hne
    exact ⟨(hes e (hsub.subset he)).1.of_isAncestor (hbelow e he),
      fun e he => hes e (hsub.subset he)⟩
  intro rs hrs r hr
  have hr' := hsat rs hrs r hr
  cases r with
  | entry e => exact parses_entry hr'.1 hr'.2
  | pointer key i =>
    obtain ⟨hpos, hlt⟩ := pagesFrom_targets boundaries es 0 rs hrs i
      (List.mem_filterMap.mpr ⟨_, hr, rfl⟩)
    rw [Nat.zero_add] at hlt
    have hpage := List.getElem?_eq_getElem hlt
    have hlen := length_child_page hladder
      (fun e he => level_le_maxLevelOf (List.mem_map_of_mem he)) hnodup hpos hpage
    have hsize : (linkTo evlrDataStart ((pagesFrom splitHierarchy boundaries es 0).map
        hierarchyFormat.page) i).size = _ := size_linkTo_eq evlrDataStart hpage
    apply parses_pointer hr'
    rw [hsize, size_hierarchyPage]
    omega

/-- The payload of a hierarchy with entries. -/
lemma buildHierarchyPayload_eq (hne : es ≠ [])
    (hbs : choosePageBoundaries (maxLevelOf (es.map HierarchyEntry.key)) = some boundaries) :
    buildHierarchyPayload es evlrDataStart =
      let pages := (pagesFrom splitHierarchy boundaries es 0).map hierarchyFormat.page
      if (pageSizes pages).sum ≤ isizeMax then
        some ((patchPages evlrDataStart pages).flatten, (linkTo evlrDataStart pages 0).offset,
          UInt64.ofNat (linkTo evlrDataStart pages 0).size)
      else none := by
  have hempty : ¬ es.isEmpty = true := by rwa [List.isEmpty_iff]
  rw [buildHierarchyPayload, if_neg hempty, hbs, Option.bind_some, buildHierarchyPage_eq]
  rfl

/-- The payload is an index of its entries. -/
lemma hierarchyIndex_of_build (hnodup : (es.map HierarchyEntry.key).Nodup)
    (hfits : ∀ e ∈ es, e.key.FitsI32) (hcount : ∀ e ∈ es, 0 ≤ e.pointCount) {payload : List UInt8}
    {rootOffset rootSize : UInt64}
    (h : buildHierarchyPayload es evlrDataStart = some (payload, rootOffset, rootSize)) :
    HierarchyIndex es payload evlrDataStart rootOffset rootSize := by
  by_cases hne : es = []
  · subst hne
    obtain ⟨rfl, rfl, rfl⟩ : [] = payload ∧ evlrDataStart = rootOffset ∧ 0 = rootSize := by
      simpa [buildHierarchyPayload] using h
    exact hierarchyIndex_nil evlrDataStart
  obtain ⟨boundaries, hbs⟩ : ∃ bs,
      choosePageBoundaries (maxLevelOf (es.map HierarchyEntry.key)) = some bs := by
    rw [buildHierarchyPayload, if_neg (by rwa [List.isEmpty_iff])] at h
    obtain ⟨bs, hbs, -⟩ := Option.bind_eq_some_iff.mp h
    exact ⟨bs, hbs⟩
  rw [buildHierarchyPayload_eq hne hbs] at h
  obtain ⟨all, hall⟩ : ∃ all, all = pagesFrom splitHierarchy boundaries es 0 := ⟨_, rfl⟩
  have hladder := choosePageBoundaries_ladder hbs
  have hparse : ∀ rs ∈ pagesFrom splitHierarchy boundaries es 0, ∀ r ∈ rs,
      hierarchyFormat.Parses parseHierarchy (r.retarget (linkTo evlrDataStart
        ((pagesFrom splitHierarchy boundaries es 0).map hierarchyFormat.page))) :=
    hierarchy_parses hnodup hfits hcount hladder
  rw [← hall] at h hparse
  simp only at h
  split_ifs at h with hmax
  obtain ⟨rfl, rfl, rfl⟩ : _ = payload ∧ _ = rootOffset ∧ _ = rootSize := by
    simpa using h
  have hlen : ([] : List UInt8).length +
      (pageSizes (all.map hierarchyFormat.page)).sum < 2 ^ 64 := by
    rw [isizeMax] at hmax
    rw [List.length_nil]
    omega
  have hfirst : evlrDataStart = evlrDataStart + UInt64.ofNat ([] : List UInt8).length := by simp
  -- the root page is the first page
  have hroot : (⟨(linkTo evlrDataStart (all.map hierarchyFormat.page) 0).offset,
      (UInt64.ofNat (linkTo evlrDataStart (all.map hierarchyFormat.page) 0).size).toNat⟩ : Link) =
        linkTo evlrDataStart (all.map hierarchyFormat.page) 0 := by
    have hne : 0 < (all.map hierarchyFormat.page).length := by
      rw [List.length_map, hall]
      exact List.length_pos_iff.mpr (pagesFrom_ne_nil _ _ _)
    have hle := take_sum_add_size_le evlrDataStart hne
    rw [UInt64.toNat_ofNat_of_lt' (show _ < 2 ^ 64 by omega)]
  constructor
  · obtain ⟨pages, hwalk, -, hperm, htiles⟩ :=
      exists_walk_readPage hall splitHierarchy_perm hfirst hlen hparse
    refine ⟨pages, boundaries.length + 1, fun fuel hfuel => ?_, hperm, htiles⟩
    rw [walkHierarchy, hroot]
    exact hwalk fuel hfuel
  · intro e he
    refine ⟨boundaries.length + 1, fun fuel hfuel => ?_⟩
    rw [lookupHierarchy, hroot]
    refine seek_readPage hall hfirst hlen hparse
      (fun b _ es => ⟨fun x hx => ?_, fun g hg x hx => ?_⟩)
      (fun b _ es he' hstay => splitHierarchy_leads he' hstay) he (decide_eq_true rfl)
      (fun x hx hkey => ?_) hfuel
    · exact (List.mem_filter.mp hx).1
    · exact (mem_splitHierarchy hg).2.2.1.subset hx
    · exact List.inj_on_of_nodup_map hnodup hx he (of_decide_eq_true hkey)

/-- **The hierarchy is read back**, for all entries with different keys.  The payload is built
unless a level is the largest `i32` or the payload is larger than a vector; and whenever it is
built, readers find the entries in it. -/
theorem buildHierarchyPayload_spec (hnodup : (es.map HierarchyEntry.key).Nodup)
    (hfits : ∀ e ∈ es, e.key.FitsI32) (hcount : ∀ e ∈ es, 0 ≤ e.pointCount)
    (evlrDataStart : UInt64) :
    ((∀ e ∈ es, e.key.level < 2 ^ 31 - 1) →
      32 * (es.length * (maxLevelOf (es.map HierarchyEntry.key) / 3 + 1)) ≤ isizeMax →
        ∃ built, buildHierarchyPayload es evlrDataStart = some built) ∧
    ∀ payload rootOffset rootSize,
      buildHierarchyPayload es evlrDataStart = some (payload, rootOffset, rootSize) →
        HierarchyIndex es payload evlrDataStart rootOffset rootSize := by
  refine ⟨fun hlevel hsize => ?_, fun payload rootOffset rootSize h =>
    hierarchyIndex_of_build hnodup hfits hcount h⟩
  by_cases hne : es = []
  · subst hne
    exact ⟨_, rfl⟩
  obtain ⟨bs, hbs⟩ := exists_choosePageBoundaries (maxLevelOf_lt (by norm_num) fun k hk => by
    obtain ⟨e, he, rfl⟩ := List.mem_map.mp hk
    exact hlevel e he)
  have hlen := (choosePageBoundaries_ladder hbs).length_le le_rfl
  have hrecords := pagesFrom_length_le splitHierarchy_perm
    (fun b es g hg => (mem_splitHierarchy hg).2.1) bs es 0
  have hsum : (pageSizes ((pagesFrom splitHierarchy bs es 0).map hierarchyFormat.page)).sum ≤
      isizeMax := by
    rw [sum_pageSizes]
    refine le_trans (Nat.mul_le_mul_left 32 (hrecords.trans (Nat.mul_le_mul_left _ ?_))) hsize
    omega
  rw [buildHierarchyPayload_eq hne hbs]
  exact ⟨_, if_pos hsum⟩

end Payload

/-- A root and a node below the first boundary. -/
theorem buildHierarchyPayload_two : ∃ payload rootOffset rootSize,
    buildHierarchyPayload [⟨⟨0, 0, 0, 0⟩, 100, 42, 10⟩, ⟨⟨4, 9, 2, 7⟩, 142, 30, 5⟩] 1000 =
      some (payload, rootOffset, rootSize) ∧
    HierarchyIndex [⟨⟨0, 0, 0, 0⟩, 100, 42, 10⟩, ⟨⟨4, 9, 2, 7⟩, 142, 30, 5⟩] payload 1000 rootOffset
      rootSize := by
  have hfits : ∀ e ∈ ([⟨⟨0, 0, 0, 0⟩, 100, 42, 10⟩, ⟨⟨4, 9, 2, 7⟩, 142, 30, 5⟩] :
      List HierarchyEntry), e.key.FitsI32 := by
    simp [VoxelKey.FitsI32]
  obtain ⟨hbuilt, hindex⟩ := buildHierarchyPayload_spec (by decide) hfits (by decide) 1000
  obtain ⟨⟨payload, rootOffset, rootSize⟩, h⟩ := hbuilt (by decide) (by decide)
  exact ⟨payload, rootOffset, rootSize, h, hindex payload rootOffset rootSize h⟩

end CopcConverter
