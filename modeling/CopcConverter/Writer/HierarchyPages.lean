import CopcConverter.Octree.NodeMap
import CopcConverter.Writer.Hierarchy

/-!
# The size of the pages of the hierarchy

A reader of a remote file fetches the hierarchy page by page, so pages should be small.  All nodes
lie below the global root, so the root page is a page of a subtree like the others: the nodes of
three levels with the pointers at the next one, or of four levels at the bottom of the tree.

Each level has at most eight times the nodes of the one above, and the records of a page have
different keys.  So no page has more than 585 records, a node and three levels below it, whatever
the number and the depth of the nodes, and the size of a page in bytes is far from the largest
number that its pointer can hold.  The keys need to be different, which the listing of the nodes
guarantees.
-/

namespace CopcConverter

open LevelTree PageTree PageBytes

/-- The most records of a page: a node and three levels below it. -/
def maxPageRecords : ℕ := 585

/-- The pages that `build_hierarchy_payload` lays out. -/
def hierarchyPages (es : List HierarchyEntry) : Option (List Page) :=
  if es.isEmpty then some []
  else
    (choosePageBoundaries (maxLevelOf (es.map HierarchyEntry.key))).map fun boundaries =>
      (buildHierarchyPage boundaries es []).2

/-- A page of whole records, of which there are at most 585; the size of no page that it points to
overflows the `i32` of the pointer. -/
structure SmallPage (pages : List Page) (page : Page) : Prop where
  records : ∃ n ≤ maxPageRecords, page.data.length = 32 * n
  targets : ∀ patch ∈ page.pointerPatches, ∃ child, pages[patch.2]? = some child ∧
    (UInt32.ofNat child.data.length).toInt32.toInt = child.data.length

variable {es : List HierarchyEntry}

/-- The payload consists of the pages, with the pointers patched, and the root page is the first. -/
lemma pages_of_payload {evlrDataStart : UInt64} {payload : List UInt8}
    {rootOffset rootSize : UInt64}
    (h : buildHierarchyPayload es evlrDataStart = some (payload, rootOffset, rootSize)) :
    ∃ pages, hierarchyPages es = some pages ∧
      payload = (patchPages evlrDataStart pages).flatten ∧
      rootSize = UInt64.ofNat ((pageSizes pages).getD 0 0) := by
  rw [buildHierarchyPayload] at h
  rw [hierarchyPages]
  split_ifs at h ⊢ with hempty
  · obtain ⟨rfl, -, rfl⟩ : [] = payload ∧ evlrDataStart = rootOffset ∧ 0 = rootSize := by
      simpa using h
    exact ⟨[], rfl, rfl, rfl⟩
  · obtain ⟨boundaries, hbs, hbuilt⟩ := Option.bind_eq_some_iff.mp h
    simp only at hbuilt
    split_ifs at hbuilt
    obtain ⟨rfl, -, rfl⟩ : _ = payload ∧ _ = rootOffset ∧ _ = rootSize := by simpa using hbuilt
    refine ⟨_, by rw [hbs, Option.map_some], rfl, ?_⟩
    rw [buildHierarchyPage_eq]
    rfl

/-- The records of the pages below the global root. -/
lemma length_page (hnodup : (es.map HierarchyEntry.key).Nodup)
    (hoct : ∀ e ∈ es, e.key.InOctree) {boundaries : List ℕ}
    (hbs : choosePageBoundaries (maxLevelOf (es.map HierarchyEntry.key)) = some boundaries) :
    ∀ rs ∈ pagesFrom splitHierarchy boundaries es 0, rs.length ≤ maxPageRecords := by
  have hladder : Ladder (maxLevelOf (es.map HierarchyEntry.key)) (VoxelKey.root.level + 3)
      boundaries := choosePageBoundaries_ladder hbs
  refine length_subtree_page hladder (fun e he => ⟨(hoct e he).isAncestor_root, ?_⟩) hnodup 0
  exact level_le_maxLevelOf (List.mem_map_of_mem he)

/-- **No page of the hierarchy has more than 585 records**, for all entries with different keys of
the octree: neither the root page nor any other page grows with the number or the depth of the
nodes, and the size of no page overflows its pointer. -/
theorem hierarchyPages_small (hnodup : (es.map HierarchyEntry.key).Nodup)
    (hoct : ∀ e ∈ es, e.key.InOctree) :
    (∀ pages, hierarchyPages es = some pages → ∀ page ∈ pages,
      page.data.length ≤ 18720 ∧ SmallPage pages page) ∧
    ∀ evlrDataStart payload rootOffset rootSize,
      buildHierarchyPayload es evlrDataStart = some (payload, rootOffset, rootSize) →
      rootSize.toNat ≤ 18720 ∧ ∃ pages, hierarchyPages es = some pages ∧
        payload = (patchPages evlrDataStart pages).flatten := by
  have hsmall : ∀ pages, hierarchyPages es = some pages → ∀ page ∈ pages,
      page.data.length ≤ 18720 ∧ SmallPage pages page := by
    intro pages hpages
    rw [hierarchyPages] at hpages
    split_ifs at hpages
    · obtain rfl := Option.some.inj hpages
      intro page hpage
      cases hpage
    obtain ⟨boundaries, hbs, hbuilt⟩ := Option.map_eq_some_iff.mp hpages
    rw [buildHierarchyPage_eq] at hbuilt
    have hlen := length_page hnodup hoct hbs
    set all := pagesFrom splitHierarchy boundaries es 0 with hall
    have hpagesEq : all.map hierarchyFormat.page = pages := hbuilt
    have hsize : ∀ rs ∈ all, (hierarchyFormat.page rs).data.length ≤ 18720 := by
      intro rs hrs
      have hrecords := hlen rs hrs
      rw [size_hierarchyPage]
      rw [maxPageRecords] at hrecords
      omega
    intro page hpage
    rw [← hpagesEq] at hpage
    obtain ⟨rs, hrs, rfl⟩ := List.mem_map.mp hpage
    refine ⟨hsize rs hrs, ⟨rs.length, hlen rs hrs, size_hierarchyPage rs⟩, fun patch hpatch => ?_⟩
    have htarget : patch.2 ∈ targets rs := by
      rw [← hierarchyFormat.map_snd_patches 0 rs]
      exact List.mem_map_of_mem hpatch
    obtain ⟨-, hlt⟩ := pagesFrom_targets boundaries es 0 rs hrs patch.2 htarget
    rw [Nat.zero_add] at hlt
    have hchild := hsize all[patch.2] (List.getElem_mem hlt)
    refine ⟨hierarchyFormat.page all[patch.2], ?_, ?_⟩
    · rw [← hpagesEq, List.getElem?_map, List.getElem?_eq_getElem hlt, Option.map_some]
    · rw [UInt32.toInt32_ofNat', Int32.toInt_ofNat_of_lt (by omega)]
  refine ⟨hsmall, fun evlrDataStart payload rootOffset rootSize h => ?_⟩
  obtain ⟨pages, hpages, hpayload, hroot⟩ := pages_of_payload h
  refine ⟨?_, pages, hpages, hpayload⟩
  cases hcase : pages with
  | nil =>
    rw [hroot, hcase]
    exact Nat.zero_le _
  | cons page rest =>
    have hpage := (hsmall pages hpages page (hcase ▸ List.mem_cons_self)).1
    rw [hroot, hcase]
    change (UInt64.ofNat page.data.length).toNat ≤ 18720
    rw [UInt64.toNat_ofNat_of_lt' (show _ < 2 ^ 64 by omega)]
    exact hpage

/-- The pages for the root and a node below the first boundary. -/
theorem hierarchyPages_small_two : ∃ pages,
    hierarchyPages [⟨⟨0, 0, 0, 0⟩, 100, 42, 10⟩, ⟨⟨4, 9, 2, 7⟩, 142, 30, 5⟩] = some pages ∧
      ∀ page ∈ pages, page.data.length ≤ 18720 ∧ SmallPage pages page := by
  obtain ⟨boundaries, hbs⟩ := @exists_choosePageBoundaries
    (maxLevelOf [⟨0, 0, 0, 0⟩, ⟨4, 9, 2, 7⟩]) (by decide)
  have hpages : hierarchyPages [⟨⟨0, 0, 0, 0⟩, 100, 42, 10⟩, ⟨⟨4, 9, 2, 7⟩, 142, 30, 5⟩] =
      some (buildHierarchyPage boundaries
        [⟨⟨0, 0, 0, 0⟩, 100, 42, 10⟩, ⟨⟨4, 9, 2, 7⟩, 142, 30, 5⟩] []).2 := by
    rw [hierarchyPages, if_neg (by decide)]
    exact congrArg (Option.map _) hbs
  have hoct : ∀ e ∈ ([⟨⟨0, 0, 0, 0⟩, 100, 42, 10⟩, ⟨⟨4, 9, 2, 7⟩, 142, 30, 5⟩] :
      List HierarchyEntry), e.key.InOctree := by
    simp [VoxelKey.InOctree]
  exact ⟨_, hpages, (hierarchyPages_small (by decide) hoct).1 _ hpages⟩

end CopcConverter
