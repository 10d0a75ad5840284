import CopcConverter.Foundations.Bytes
import CopcConverter.Foundations.PageTree

/-!
# Pages as bytes

The pages of a page tree are laid out one after the other.  A pointer holds the absolute position
and the size of its target, which are only known when all pages are built: pointers are first
written as zeros, with a list of the places to patch, and patched afterwards.  A `Format` says how
an entry and a pointer are written, and `Parses` what a reader must be able to do with it.

Reading a page at the position and of the size that a pointer to it holds gives back its records, as
long as positions and sizes fit their fields, so that what is said about walking and searching in
the list of pages holds for the bytes.  Both indexes of the output are instances, with different
records.
-/

namespace PageBytes

open PageTree

variable {α π : Type}

/-! ## Pages under construction -/

/-- Where a page lies: its absolute position and its size. -/
structure Link where
  offset : UInt64
  size : ℕ
  deriving DecidableEq

/-- The position in eight bytes, then the size in four. -/
def Link.bytes (l : Link) : List UInt8 := Bytes.u64 l.offset ++ Bytes.toLE 4 l.size

@[simp] lemma Link.length_bytes (l : Link) : l.bytes.length = 12 := by
  rw [Link.bytes, List.length_append, Bytes.length_u64, Bytes.length_toLE]

/-- The bytes of a page before it is known where the pages lie: `pointerPatches` lists the positions
of the links and the numbers of the pages they lead to. -/
structure Page where
  data : List UInt8
  pointerPatches : List (ℕ × ℕ)

/-- The absolute position of every page, the first one lying at `start`. -/
def pageOffsets (start : UInt64) : List Page → List UInt64
  | [] => []
  | page :: pages => start :: pageOffsets (start + UInt64.ofNat page.data.length) pages

/-- Write one link. -/
def patchLink (offsets : List UInt64) (sizes : List ℕ) (data : List UInt8) (patch : ℕ × ℕ) :
    List UInt8 :=
  let data := Bytes.overwrite data patch.1 (Bytes.u64 (offsets.getD patch.2 0))
  Bytes.overwrite data (patch.1 + 8) (Bytes.toLE 4 (sizes.getD patch.2 0))

/-- Write all links of a page. -/
def Page.patch (offsets : List UInt64) (sizes : List ℕ) (page : Page) : List UInt8 :=
  page.pointerPatches.foldl (patchLink offsets sizes) page.data

/-- The sizes of the pages. -/
def pageSizes (pages : List Page) : List ℕ := pages.map fun page => page.data.length

/-- The bytes of all pages, the first one lying at `start`. -/
def patchPages (start : UInt64) (pages : List Page) : List (List UInt8) :=
  pages.map (Page.patch (pageOffsets start pages) (pageSizes pages))

/-- Where the page of a number lies. -/
def linkTo (start : UInt64) (pages : List Page) (i : ℕ) : Link :=
  ⟨(pageOffsets start pages).getD i 0, (pageSizes pages).getD i 0⟩

/-! ## Formats -/

/-- How records are written: an entry by its bytes, a pointer by its link between two parts that do
not depend on it. -/
structure Format (α π : Type) where
  entryBytes : α → List UInt8
  head : π → List UInt8
  tail : π → List UInt8

namespace Format

variable (F : Format α π)

/-- The bytes of a record. -/
def encode : Record α π Link → List UInt8
  | .entry e => F.entryBytes e
  | .pointer p l => F.head p ++ (l.bytes ++ F.tail p)

/-- The bytes of a record whose target is not placed yet. -/
def reserve (r : Record α π ℕ) : List UInt8 := F.encode (r.retarget fun _ => ⟨0, 0⟩)

/-- The links in the bytes of some records, the first one lying at `pos`. -/
def patches : ℕ → List (Record α π ℕ) → List (ℕ × ℕ)
  | _, [] => []
  | pos, .entry e :: rs => patches (pos + (F.entryBytes e).length) rs
  | pos, .pointer p i :: rs =>
    (pos + (F.head p).length, i) :: patches (pos + (F.reserve (.pointer p i)).length) rs

/-- The page of some records. -/
def page (rs : List (Record α π ℕ)) : Page := ⟨rs.flatMap F.reserve, F.patches 0 rs⟩

/-- The bytes of a pointer do not depend on where it leads in their number. -/
lemma length_encode_retarget {γ : Type} (f g : γ → Link) (r : Record α π γ) :
    (F.encode (r.retarget f)).length = (F.encode (r.retarget g)).length := by
  cases r with
  | entry e => rfl
  | pointer p i => simp [Record.retarget, encode]

lemma length_flatMap_encode {γ : Type} (f g : γ → Link) (rs : List (Record α π γ)) :
    (rs.flatMap fun r => F.encode (r.retarget f)).length =
      (rs.flatMap fun r => F.encode (r.retarget g)).length := by
  induction rs with
  | nil => rfl
  | cons r rs ih =>
    rw [List.flatMap_cons, List.flatMap_cons, List.length_append, List.length_append, ih,
      F.length_encode_retarget f g]

/-- Writing a link into the place kept for it. -/
lemma patchLink_reserve (offsets : List UInt64) (sizes : List ℕ) (before after : List UInt8) (p : π)
    (i : ℕ) :
    patchLink offsets sizes (before ++ (F.reserve (.pointer p i) ++ after))
        (before.length + (F.head p).length, i) =
      before ++ (F.encode (.pointer p ⟨offsets.getD i 0, sizes.getD i 0⟩) ++ after) := by
  have hsplit : before ++ (F.reserve (.pointer p i) ++ after) =
      (before ++ F.head p) ++ (Bytes.u64 0 ++ (Bytes.toLE 4 0 ++ (F.tail p ++ after))) := by
    simp [reserve, Record.retarget, encode, Link.bytes]
  have hlen : before.length + (F.head p).length = (before ++ F.head p).length :=
    List.length_append.symm
  have hskip : (before ++ F.head p).length + 8 =
      (before ++ F.head p ++ Bytes.u64 (offsets.getD i 0)).length := by
    rw [← Bytes.length_u64 (offsets.getD i 0), ← List.length_append]
  rw [patchLink, hsplit]
  simp only [hlen]
  rw [Bytes.overwrite_middle _ _ _ _ (by simp), hskip, ← List.append_assoc,
    Bytes.overwrite_middle _ _ _ _ (by simp)]
  simp [encode, Link.bytes]

/-- Patching a page writes every link into its place. -/
lemma foldl_patchLink (offsets : List UInt64) (sizes : List ℕ) (rs : List (Record α π ℕ))
    (before : List UInt8) :
    (F.patches before.length rs).foldl (patchLink offsets sizes)
        (before ++ rs.flatMap F.reserve) =
      before ++ rs.flatMap fun r =>
        F.encode (r.retarget fun i => ⟨offsets.getD i 0, sizes.getD i 0⟩) := by
  induction rs generalizing before with
  | nil => rfl
  | cons r rs ih =>
    cases r with
    | entry e =>
      have hentry : F.reserve (.entry e) = F.entryBytes e := rfl
      rw [patches, List.flatMap_cons, List.flatMap_cons, hentry, ← List.append_assoc,
        ← List.length_append, ih, List.append_assoc]
      rfl
    | pointer p i =>
      have hsame : (F.reserve (.pointer p i)).length =
          (F.encode (.pointer p ⟨offsets.getD i 0, sizes.getD i 0⟩)).length :=
        F.length_encode_retarget _ (fun i => ⟨offsets.getD i 0, sizes.getD i 0⟩) (.pointer p i)
      rw [patches, List.foldl_cons, List.flatMap_cons, List.flatMap_cons, patchLink_reserve,
        ← List.append_assoc, hsame, ← List.length_append, ih, List.append_assoc]
      rfl

/-- The patched page of some records is what their bytes are with the links in place. -/
lemma patch_page (offsets : List UInt64) (sizes : List ℕ) (rs : List (Record α π ℕ)) :
    (F.page rs).patch offsets sizes =
      rs.flatMap fun r => F.encode (r.retarget fun i => ⟨offsets.getD i 0, sizes.getD i 0⟩) :=
  F.foldl_patchLink offsets sizes rs []

end Format

/-! ## Building -/

/-- The pages of some groups, built one after the other behind the pages so far, and the number of
the first page of every group. -/
def buildChildren (build : List α → List Page → ℕ × List Page) :
    List (π × List α) → List Page → List (π × ℕ) × List Page
  | [], pages => ([], pages)
  | (p, es) :: groups, pages =>
    let child := build es pages
    let rest := buildChildren build groups child.2
    ((p, child.1) :: rest.1, rest.2)

namespace Format

variable (F : Format α π)

/-- Append a pointer whose link is written later. -/
def addPointer (page : Page) (child : π × ℕ) : Page where
  data := page.data ++ F.reserve (.pointer child.1 child.2)
  pointerPatches :=
    page.pointerPatches ++ [(page.data.length + (F.head child.1).length, child.2)]

lemma patches_append (pos : ℕ) (rs rs' : List (Record α π ℕ)) :
    F.patches pos (rs ++ rs') =
      F.patches pos rs ++ F.patches (pos + (rs.flatMap F.reserve).length) rs' := by
  induction rs generalizing pos with
  | nil => rfl
  | cons r rs ih =>
    cases r with
    | entry e =>
      have hentry : F.reserve (.entry e) = F.entryBytes e := rfl
      rw [List.cons_append, patches, patches, ih, List.flatMap_cons, List.length_append, hentry,
        Nat.add_assoc]
    | pointer p i =>
      rw [List.cons_append, patches, patches, ih, List.flatMap_cons, List.length_append,
        List.cons_append, Nat.add_assoc]

/-- There is one link for every pointer of a page. -/
lemma map_snd_patches (pos : ℕ) (rs : List (Record α π ℕ)) :
    (F.patches pos rs).map Prod.snd = targets rs := by
  induction rs generalizing pos with
  | nil => rfl
  | cons r rs ih =>
    cases r with
    | entry e => exact ih _
    | pointer p i => exact congrArg (i :: ·) (ih _)

/-- A page of entries has no links. -/
lemma page_entries (es : List α) :
    F.page (es.map .entry) = ⟨es.flatMap F.entryBytes, []⟩ := by
  have hpatches : ∀ pos, F.patches pos (es.map .entry) = [] := by
    induction es with
    | nil => exact fun _ => rfl
    | cons e es ih => exact fun pos => ih _
  rw [page, hpatches, List.flatMap_map]
  rfl

/-- Appending pointers to a page gives the page of its records and the pointers. -/
lemma foldl_addPointer (rs : List (Record α π ℕ)) (children : List (π × ℕ)) :
    children.foldl F.addPointer (F.page rs) =
      F.page (rs ++ children.map fun child => .pointer child.1 child.2) := by
  induction children generalizing rs with
  | nil => rw [List.map_nil, List.append_nil, List.foldl_nil]
  | cons child children ih =>
    have hstep : F.addPointer (F.page rs) child =
        F.page (rs ++ [.pointer child.1 child.2]) := by
      rw [addPointer, page, page, patches_append, List.flatMap_append, Nat.zero_add]
      simp [patches]
    rw [List.foldl_cons, hstep, ih, List.map_cons, List.append_assoc, List.singleton_append]

end Format

/-- When building one page appends the pages of its entries, building groups appends the pages of
all groups. -/
lemma buildChildren_eq {F : Format α π} {build : List α → List Page → ℕ × List Page}
    {pagesOf : List α → ℕ → List (List (Record α π ℕ))}
    (hbuild : ∀ es pages, build es pages =
      (pages.length, pages ++ (pagesOf es pages.length).map F.page))
    (groups : List (π × List α)) (pages : List Page) :
    (buildChildren build groups pages).1.map (fun child => Record.pointer child.1 child.2) =
        (childPages pagesOf groups pages.length).1 ∧
      (buildChildren build groups pages).2 =
        pages ++ (childPages pagesOf groups pages.length).2.map F.page := by
  induction groups generalizing pages with
  | nil => exact ⟨rfl, (List.append_nil pages).symm⟩
  | cons g groups ih =>
    obtain ⟨hpointers, hpages⟩ := ih (pages ++ (pagesOf g.2 pages.length).map F.page)
    rw [List.length_append, List.length_map] at hpointers hpages
    rw [buildChildren, childPages, hbuild]
    constructor
    · rw [List.map_cons, hpointers]
    · rw [hpages, List.map_append, List.append_assoc]

/-! ## Layout -/

@[simp] lemma length_pageOffsets (start : UInt64) (pages : List Page) :
    (pageOffsets start pages).length = pages.length := by
  induction pages generalizing start with
  | nil => rfl
  | cons page pages ih => rw [pageOffsets, List.length_cons, List.length_cons, ih]

/-- A page lies behind the pages before it. -/
lemma pageOffsets_getD (start : UInt64) {pages : List Page} {i : ℕ} (h : i < pages.length) :
    (pageOffsets start pages).getD i 0 = start + UInt64.ofNat ((pageSizes pages).take i).sum := by
  induction pages generalizing start i with
  | nil => cases h
  | cons page pages ih =>
    cases i with
    | zero => simp [pageOffsets]
    | succ i =>
      have hsum : ((pageSizes (page :: pages)).take (i + 1)).sum =
          page.data.length + ((pageSizes pages).take i).sum := List.sum_cons
      rw [pageOffsets, List.getD_cons_succ, ih _ (Nat.lt_of_succ_lt_succ h), hsum,
        UInt64.ofNat_add, ← UInt64.add_assoc]

/-- The position of a page, counted from where counting starts. -/
lemma sub_start_toNat (start : UInt64) {n : ℕ} (h : n < 2 ^ 64) :
    (start + UInt64.ofNat n - start).toNat = n := by
  rw [UInt64.add_comm, UInt64.add_sub_cancel, UInt64.toNat_ofNat']
  exact Nat.mod_eq_of_lt h

/-- A part of a concatenation, by the lengths of the parts before it. -/
lemma slice_flatten {parts : List (List UInt8)} {i : ℕ} {part : List UInt8}
    (h : parts[i]? = some part) :
    Bytes.slice parts.flatten ((parts.map List.length).take i).sum part.length = part := by
  induction parts generalizing i with
  | nil => cases h
  | cons first parts ih =>
    cases i with
    | zero =>
      obtain rfl := Option.some.inj h
      rw [List.take_zero, List.sum_nil, List.flatten_cons]
      exact Bytes.slice_here _ rfl
    | succ i =>
      rw [List.map_cons, List.take_succ_cons, List.sum_cons, List.flatten_cons,
        Bytes.slice_skip _ _ (Nat.le_add_right _ _), Nat.add_sub_cancel_left]
      exact ih h

/-! ## Reading -/

/-- Read records until the bytes end. -/
def readRecords (parse : List UInt8 → Option (Record α π Link × List UInt8)) :
    ℕ → List UInt8 → Option (List (Record α π Link))
  | _, [] => some []
  | 0, _ :: _ => none
  | fuel + 1, b :: bs => (parse (b :: bs)).bind fun r =>
    (readRecords parse fuel r.2).map fun rs => r.1 :: rs

/-- Read a page of bytes whose first one lies at `start`. -/
def readPage (parse : List UInt8 → Option (Record α π Link × List UInt8)) (bytes : List UInt8)
    (start : UInt64) (l : Link) : Option (List (Record α π Link)) :=
  let pos := (l.offset - start).toNat
  if pos + l.size ≤ bytes.length then readRecords parse l.size (Bytes.slice bytes pos l.size)
  else none

/-- A record is read back from its bytes, of which there is at least one. -/
structure Format.Parses (F : Format α π)
    (parse : List UInt8 → Option (Record α π Link × List UInt8)) (r : Record α π Link) : Prop where
  ne_nil : F.encode r ≠ []
  parse_eq : ∀ rest, parse (F.encode r ++ rest) = some (r, rest)

variable {F : Format α π} {parse : List UInt8 → Option (Record α π Link × List UInt8)}

/-- Records are read back from their bytes. -/
lemma readRecords_encode {rs : List (Record α π Link)} (h : ∀ r ∈ rs, F.Parses parse r) {fuel : ℕ}
    (hfuel : (rs.flatMap F.encode).length ≤ fuel) :
    readRecords parse fuel (rs.flatMap F.encode) = some rs := by
  induction rs generalizing fuel with
  | nil => rw [List.flatMap_nil, readRecords]
  | cons r rs ih =>
    obtain ⟨hne, hparse⟩ := h r List.mem_cons_self
    obtain ⟨b, bs, hbs⟩ := List.exists_cons_of_ne_nil hne
    have hparse := hparse (rs.flatMap F.encode)
    rw [List.flatMap_cons, List.length_append] at hfuel
    rw [List.flatMap_cons]
    rw [hbs, List.cons_append] at hparse ⊢
    rw [hbs, List.length_cons] at hfuel
    obtain ⟨fuel, rfl⟩ : ∃ n, fuel = n + 1 := ⟨fuel - 1, by omega⟩
    rw [readRecords, hparse, Option.bind_some,
      ih (fun r hr => h r (List.mem_cons_of_mem _ hr)) (by omega), Option.map_some]

/-- The links follow one another without gaps from `pos` to `stop`, counted from `start`. -/
def Tiles (start : UInt64) : ℕ → List Link → ℕ → Prop
  | pos, [], stop => pos = stop
  | pos, l :: ls, stop => (l.offset - start).toNat = pos ∧ Tiles start (pos + l.size) ls stop

section Layout

variable {front : List UInt8} {start first : UInt64} {pages : List (List (Record α π ℕ))}

/-- The pages under construction are as long as the patched ones. -/
lemma length_patchPages (first : UInt64) (pages : List (List (Record α π ℕ))) :
    (patchPages first (pages.map F.page)).map List.length = pageSizes (pages.map F.page) := by
  rw [patchPages, pageSizes, List.map_map, List.map_map, List.map_map]
  refine List.map_congr_left fun rs _ => ?_
  simp only [Function.comp_apply, Format.patch_page]
  exact F.length_flatMap_encode _ _ rs

lemma length_flatten_patchPages (first : UInt64) (pages : List (List (Record α π ℕ))) :
    (patchPages first (pages.map F.page)).flatten.length = (pageSizes (pages.map F.page)).sum := by
  rw [List.length_flatten, length_patchPages]

/-- The bytes of one page. -/
lemma getElem?_patchPages {i : ℕ} {rs : List (Record α π ℕ)} (hi : pages[i]? = some rs) :
    (patchPages first (pages.map F.page))[i]? =
      some ((rs.map (Record.retarget (linkTo first (pages.map F.page)))).flatMap F.encode) := by
  rw [patchPages, List.map_map, List.getElem?_map, hi, Option.map_some, Function.comp_apply,
    Format.patch_page, List.flatMap_map]
  rfl

/-- The bytes of all pages are those of all records. -/
lemma flatten_patchPages (first : UInt64) (pages : List (List (Record α π ℕ))) :
    (patchPages first (pages.map F.page)).flatten =
      (pages.flatten.map (Record.retarget (linkTo first (pages.map F.page)))).flatMap F.encode := by
  have hall : ∀ (f : ℕ → Link) (l : List (List (Record α π ℕ))),
      (l.map fun rs => rs.flatMap fun r => F.encode (r.retarget f)).flatten =
        (l.flatten.map (Record.retarget f)).flatMap F.encode := by
    intro f l
    induction l with
    | nil => rfl
    | cons rs l ih =>
      rw [List.map_cons, List.flatten_cons, ih, List.flatten_cons, List.map_append,
        List.flatMap_append, List.flatMap_map _ _ rs]
  rw [← hall, patchPages, List.map_map]
  congr 1
  exact List.map_congr_left fun rs _ => F.patch_page _ _ rs

/-- The size in a link is the number of bytes of its page. -/
lemma size_linkTo {i : ℕ} {rs : List (Record α π ℕ)} (hi : pages[i]? = some rs) :
    (linkTo first (pages.map F.page) i).size =
      ((rs.map (Record.retarget (linkTo first (pages.map F.page)))).flatMap F.encode).length := by
  have hsize : (linkTo first (pages.map F.page) i).size =
      (pageSizes (pages.map F.page)).getD i 0 := rfl
  rw [hsize, ← length_patchPages first, List.getD_eq_getElem?_getD, List.getElem?_map,
    getElem?_patchPages hi, Option.map_some, Option.getD_some]

/-- The size in a link is the size of the page under construction. -/
lemma size_linkTo_eq (first : UInt64) {i : ℕ} {rs : List (Record α π ℕ)}
    (hi : pages[i]? = some rs) :
    (linkTo first (pages.map F.page) i).size = (F.page rs).data.length := by
  have hsize : (linkTo first (pages.map F.page) i).size =
      (pageSizes (pages.map F.page)).getD i 0 := rfl
  rw [hsize, pageSizes, List.map_map, List.getD_eq_getElem?_getD, List.getElem?_map, hi]
  rfl

/-- A page ends before the end of all pages. -/
lemma take_sum_add_size_le (first : UInt64) {pages : List Page} {i : ℕ} (hi : i < pages.length) :
    ((pageSizes pages).take i).sum + (linkTo first pages i).size ≤ (pageSizes pages).sum := by
  have hlen : i < (pageSizes pages).length := by rwa [pageSizes, List.length_map]
  have hsize : (linkTo first pages i).size = (pageSizes pages)[i] :=
    List.getD_eq_getElem _ _ hlen
  have hsum := List.sum_take_add_sum_drop (pageSizes pages) (i + 1)
  rw [List.sum_take_succ _ i hlen] at hsum
  omega

/-- The position in a link, counted from the start of some bytes with the pages at their end. -/
lemma offset_linkTo (hfirst : first = start + UInt64.ofNat front.length) {pages : List Page} {i : ℕ}
    (hi : i < pages.length) (hlen : front.length + (pageSizes pages).sum < 2 ^ 64) :
    ((linkTo first pages i).offset - start).toNat =
      front.length + ((pageSizes pages).take i).sum := by
  have hle := take_sum_add_size_le first hi
  have hoffset : (linkTo first pages i).offset = (pageOffsets first pages).getD i 0 := rfl
  rw [hoffset, pageOffsets_getD first hi, hfirst, UInt64.add_assoc, ← UInt64.ofNat_add]
  exact sub_start_toNat start (by omega)

/-- **A page is read back** at the place that the links to it give. -/
theorem readPage_linkTo (hfirst : first = start + UInt64.ofNat front.length)
    (hlen : front.length + (pageSizes (pages.map F.page)).sum < 2 ^ 64)
    {i : ℕ} {rs : List (Record α π ℕ)} (hi : pages[i]? = some rs)
    (hparse : ∀ r ∈ rs, F.Parses parse (r.retarget (linkTo first (pages.map F.page)))) :
    readPage parse (front ++ (patchPages first (pages.map F.page)).flatten) start
        (linkTo first (pages.map F.page) i) =
      some (rs.map (Record.retarget (linkTo first (pages.map F.page)))) := by
  have hrange : i < (pages.map F.page).length := by
    rw [List.length_map]
    exact (List.getElem?_eq_some_iff.mp hi).1
  have hle := take_sum_add_size_le first hrange
  have hpart : (patchPages first (pages.map F.page))[i]? = some _ := getElem?_patchPages hi
  have hslice := slice_flatten hpart
  rw [length_patchPages, ← size_linkTo hi] at hslice
  rw [readPage, offset_linkTo hfirst hrange hlen]
  rw [if_pos (by rw [List.length_append, length_flatten_patchPages]; omega),
    Bytes.slice_skip _ _ (Nat.le_add_right _ _), Nat.add_sub_cancel_left, hslice]
  refine readRecords_encode (fun r hr => ?_) (size_linkTo hi).ge
  obtain ⟨r', hr', rfl⟩ := List.mem_map.mp hr
  exact hparse r' hr'

/-- The links to all pages, in order, follow one another. -/
lemma tiles_linkTo (hfirst : first = start + UInt64.ofNat front.length) {pages : List Page}
    (hlen : front.length + (pageSizes pages).sum < 2 ^ 64) :
    Tiles start front.length ((List.range pages.length).map (linkTo first pages))
      (front.length + (pageSizes pages).sum) := by
  suffices h : ∀ n, n ≤ pages.length →
      Tiles start (front.length + ((pageSizes pages).take (pages.length - n)).sum)
        ((List.range' (pages.length - n) n).map (linkTo first pages))
        (front.length + (pageSizes pages).sum) by
    have hall := h pages.length le_rfl
    rwa [Nat.sub_self, List.take_zero, List.sum_nil, Nat.add_zero, ← List.range_eq_range'] at hall
  intro n
  induction n with
  | zero =>
    intro _
    have hwhole : (pageSizes pages).take pages.length = pageSizes pages :=
      List.take_of_length_le (by rw [pageSizes, List.length_map])
    rw [Nat.sub_zero, hwhole]
    rfl
  | succ n ih =>
    intro hn
    have hi : pages.length - (n + 1) < pages.length := by omega
    have hnext : pages.length - (n + 1) + 1 = pages.length - n := by omega
    have hlen' : pages.length - (n + 1) < (pageSizes pages).length := by
      rwa [pageSizes, List.length_map]
    have hsize : (linkTo first pages (pages.length - (n + 1))).size =
        (pageSizes pages)[pages.length - (n + 1)] := List.getD_eq_getElem _ _ hlen'
    have hrest := ih (by omega)
    rw [← hnext, List.sum_take_succ _ _ hlen', ← hsize, ← Nat.add_assoc] at hrest
    rw [List.range'_succ, List.map_cons]
    exact ⟨offset_linkTo hfirst hi hlen, hrest⟩

end Layout

/-! ## Whole indexes -/

section Index

variable {β : Type} {split : β → List α → List α × List (π × List α)} {bs : List β} {es : List α}
  {front : List UInt8} {start first : UInt64} {all : List (List (Record α π ℕ))}

/-- **Walking through the bytes** from the first page visits all pages in the order in which they
lie. -/
theorem walk_readPage (hall : all = pagesFrom split bs es 0)
    (hfirst : first = start + UInt64.ofNat front.length)
    (hlen : front.length + (pageSizes (all.map F.page)).sum < 2 ^ 64)
    (hparse : ∀ rs ∈ all, ∀ r ∈ rs, F.Parses parse (r.retarget (linkTo first (all.map F.page))))
    {fuel : ℕ} (hfuel : bs.length < fuel) :
    walk (readPage parse (front ++ (patchPages first (all.map F.page)).flatten) start) fuel
        (linkTo first (all.map F.page) 0) =
      some ((numbered 0 all).map fun e =>
        (linkTo first (all.map F.page) e.1,
          e.2.map (Record.retarget (linkTo first (all.map F.page))))) := by
  have hread : ∀ i rs, (fun i => all[i]?) i = some rs →
      readPage parse (front ++ (patchPages first (all.map F.page)).flatten) start
        (linkTo first (all.map F.page) i) =
          some (rs.map (Record.retarget (linkTo first (all.map F.page)))) := fun i rs hi =>
    readPage_linkTo hfirst hlen hi (hparse rs (List.mem_of_getElem? hi))
  apply walk_retarget hread
  subst hall
  exact walk_pagesFrom (fun i _ => by rw [Nat.zero_add]) hfuel

/-- The visited pages lie one after the other behind the first part. -/
lemma tiles_walk (hfirst : first = start + UInt64.ofNat front.length)
    (hlen : front.length + (pageSizes (all.map F.page)).sum < 2 ^ 64) :
    Tiles start front.length ((numbered 0 all).map fun e => linkTo first (all.map F.page) e.1)
      (front ++ (patchPages first (all.map F.page)).flatten).length := by
  have hlinks : ((numbered 0 all).map fun e => linkTo first (all.map F.page) e.1) =
      (List.range (all.map F.page).length).map (linkTo first (all.map F.page)) := by
    rw [numbered, List.map_map, List.length_map, List.range_eq_range', ← List.zipIdx_map_snd 0 all,
      List.map_map]
    rfl
  rw [hlinks, List.length_append, length_flatten_patchPages]
  exact tiles_linkTo hfirst hlen

/-- Walking through the bytes finds every entry once, in pages that lie one after the other. -/
theorem exists_walk_readPage (hall : all = pagesFrom split bs es 0)
    (hsplit : ∀ b es, ((split b es).1 ++ (split b es).2.flatMap Prod.snd).Perm es)
    (hfirst : first = start + UInt64.ofNat front.length)
    (hlen : front.length + (pageSizes (all.map F.page)).sum < 2 ^ 64)
    (hparse : ∀ rs ∈ all, ∀ r ∈ rs, F.Parses parse (r.retarget (linkTo first (all.map F.page)))) :
    ∃ pages, (∀ fuel, bs.length + 1 ≤ fuel →
        walk (readPage parse (front ++ (patchPages first (all.map F.page)).flatten) start) fuel
          (linkTo first (all.map F.page) 0) = some pages) ∧
      pages.length = all.length ∧ (pages.flatMap fun page => entries page.2).Perm es ∧
      Tiles start front.length (pages.map Prod.fst)
        (front ++ (patchPages first (all.map F.page)).flatten).length := by
  refine ⟨(numbered 0 all).map fun e => (linkTo first (all.map F.page) e.1,
    e.2.map (Record.retarget (linkTo first (all.map F.page)))), fun fuel hfuel => ?_, ?_, ?_, ?_⟩
  · exact walk_readPage hall hfirst hlen hparse hfuel
  · rw [List.length_map, numbered, List.length_map, List.length_zipIdx]
  · have hentries : (numbered 0 all).flatMap (fun e => entries e.2) = all.flatMap entries := by
      rw [← List.flatMap_map Prod.snd, map_snd_numbered]
    rw [List.flatMap_map]
    simp only [entries_retarget]
    rw [hentries, hall]
    exact pagesFrom_entries_perm hsplit bs es 0
  · rw [List.map_map]
    exact tiles_walk hfirst hlen

/-- **Searching through the bytes** from the first page finds the entry. -/
theorem seek_readPage (hall : all = pagesFrom split bs es 0)
    (hfirst : first = start + UInt64.ofNat front.length)
    (hlen : front.length + (pageSizes (all.map F.page)).sum < 2 ^ 64)
    (hparse : ∀ rs ∈ all, ∀ r ∈ rs, F.Parses parse (r.retarget (linkTo first (all.map F.page))))
    {isEntry : α → Bool} {leads : π → Bool} {e : α}
    (hsub : ∀ b ∈ bs, ∀ es, (∀ x ∈ (split b es).1, x ∈ es) ∧
      ∀ g ∈ (split b es).2, ∀ x ∈ g.2, x ∈ es)
    (hleads : ∀ b ∈ bs, ∀ es, e ∈ es → e ∉ (split b es).1 →
      ∃ g, (split b es).2.filter (fun g => leads g.1) = [g] ∧ e ∈ g.2)
    (hmem : e ∈ es) (he : isEntry e = true) (honly : ∀ x ∈ es, isEntry x = true → x = e)
    {fuel : ℕ} (hfuel : bs.length < fuel) :
    seek (readPage parse (front ++ (patchPages first (all.map F.page)).flatten) start) isEntry leads
      fuel (linkTo first (all.map F.page) 0) = some e := by
  have hread : ∀ i rs, (fun i => all[i]?) i = some rs →
      readPage parse (front ++ (patchPages first (all.map F.page)).flatten) start
        (linkTo first (all.map F.page) i) =
          some (rs.map (Record.retarget (linkTo first (all.map F.page)))) := fun i rs hi =>
    readPage_linkTo hfirst hlen hi (hparse rs (List.mem_of_getElem? hi))
  apply seek_retarget hread
  subst hall
  exact seek_pagesFrom hsub hleads hmem he honly (fun i _ => by rw [Nat.zero_add]) hfuel

/-- **Browsing through the bytes** from the first page misses nothing that is wanted. -/
theorem browse_readPage (hall : all = pagesFrom split bs es 0)
    (hfirst : first = start + UInt64.ofNat front.length)
    (hlen : front.length + (pageSizes (all.map F.page)).sum < 2 ^ 64)
    (hparse : ∀ rs ∈ all, ∀ r ∈ rs, F.Parses parse (r.retarget (linkTo first (all.map F.page))))
    {want : α → Bool} {enter : π → Bool} {I : List β → List α → Prop}
    (hsplit : ∀ b es, ((split b es).1 ++ (split b es).2.flatMap Prod.snd).Perm es)
    (hgroups : ∀ b bs es, I (b :: bs) es → ∀ g ∈ (split b es).2, I bs g.2 ∧
      ∀ e ∈ g.2, want e = true → enter g.1 = true)
    (hinv : I bs es) {fuel : ℕ} (hfuel : bs.length < fuel) :
    ∃ found, browse (readPage parse (front ++ (patchPages first (all.map F.page)).flatten) start)
        enter fuel (linkTo first (all.map F.page) 0) = some found ∧
      (found.filter want).Perm (es.filter want) := by
  have hread : ∀ i rs, (fun i => all[i]?) i = some rs →
      readPage parse (front ++ (patchPages first (all.map F.page)).flatten) start
        (linkTo first (all.map F.page) i) =
          some (rs.map (Record.retarget (linkTo first (all.map F.page)))) := fun i rs hi =>
    readPage_linkTo hfirst hlen hi (hparse rs (List.mem_of_getElem? hi))
  have hlocated : Located all 0 (pagesFrom split bs es 0) := fun i _ => by rw [Nat.zero_add, hall]
  obtain ⟨found, hfound, hperm⟩ :=
    @browse_pagesFrom _ _ _ split want enter all I hsplit hgroups bs es 0 hinv hlocated fuel hfuel
  exact ⟨found, browse_retarget hread hfound, hperm⟩

end Index

/-! ## Pages in a larger file -/

section File

variable {before payload after : List UInt8} {start : UInt64}
  {parse : List UInt8 → Option (Record α π Link × List UInt8)}

/-- A page of some bytes is a page of the file that holds these bytes where they start. -/
lemma readPage_file (hstart : before.length = start.toNat)
    (hlen : (before ++ (payload ++ after)).length < 2 ^ 64) {l : Link}
    {rs : List (Record α π Link)} (h : readPage parse payload start l = some rs) :
    readPage parse (before ++ (payload ++ after)) 0 l = some rs := by
  rw [readPage] at h
  split_ifs at h with hin
  simp only [List.length_append] at hlen
  obtain ⟨pos, hpos⟩ : ∃ pos, pos = (l.offset - start).toNat := ⟨_, rfl⟩
  rw [← hpos] at h hin
  have hoffset : l.offset.toNat = before.length + pos := by
    have hsum : l.offset = start + (l.offset - start) := by
      rw [UInt64.add_comm, UInt64.sub_add_cancel]
    rw [hsum, UInt64.toNat_add, ← hpos, ← hstart]
    exact Nat.mod_eq_of_lt (by omega)
  have hslice : Bytes.slice (before ++ (payload ++ after)) (before.length + pos) l.size =
      Bytes.slice payload pos l.size := by
    rw [Bytes.slice_skip _ _ (Nat.le_add_right _ _), Nat.add_sub_cancel_left, Bytes.slice,
      Bytes.slice, List.drop_append_of_le_length (by omega),
      List.take_append_of_le_length (by rw [List.length_drop]; omega)]
  rw [readPage]
  simp only [UInt64.sub_zero]
  rw [hoffset, if_pos (by simp only [List.length_append]; omega), hslice, h]

/-- A walk through some bytes is a walk through the file. -/
theorem walk_file (hstart : before.length = start.toNat)
    (hlen : (before ++ (payload ++ after)).length < 2 ^ 64) {fuel : ℕ} {root : Link}
    {pages : List (Link × List (Record α π Link))}
    (h : walk (readPage parse payload start) fuel root = some pages) :
    walk (readPage parse (before ++ (payload ++ after)) 0) fuel root = some pages := by
  have hread : ∀ l rs, readPage parse payload start l = some rs →
      readPage parse (before ++ (payload ++ after)) 0 (id l) =
        some (rs.map (Record.retarget id)) := by
    intro l rs hl
    rw [id, Record.retarget_id, List.map_id]
    exact readPage_file hstart hlen hl
  have hwalk := walk_retarget hread h
  simpa using hwalk

/-- A search through some bytes is a search through the file. -/
theorem seek_file (hstart : before.length = start.toNat)
    (hlen : (before ++ (payload ++ after)).length < 2 ^ 64) {isEntry : α → Bool} {leads : π → Bool}
    {fuel : ℕ} {root : Link} {e : α}
    (h : seek (readPage parse payload start) isEntry leads fuel root = some e) :
    seek (readPage parse (before ++ (payload ++ after)) 0) isEntry leads fuel root = some e := by
  refine seek_retarget (f := id) (fun l rs hl => ?_) h
  rw [id, Record.retarget_id, List.map_id]
  exact readPage_file hstart hlen hl

end File

end PageBytes
