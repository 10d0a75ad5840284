import CopcConverter.Validate.Validate

/-!
# When accepted files share their CRS

The check compares every file with a reference, the first file that has a coordinate system.  When
that file is a GeoTIFF one, every WKT file is compared through the code of the first WKT text,
whatever text the file itself has.  So files with different texts may be accepted, and whether they
are may depend on the order in which the files are given.

Here this is made exact: the check is sound and independent of the order for precisely the lists in
which it cannot matter, `CrsUnambiguous`.  These are the lists in which, when all files have a
coordinate system, GeoTIFF files have one horizontal code, and some text has that code, all texts
have that code and one hash.  The condition speaks of the input and of the parser only, and three
files with the codes 3006, 3006 and 4326 violate it.
-/

namespace CopcConverter

variable {env : Externals}

/-! ## The check -/

/-- The CRS check over a list of results: every file but the reference compares equal to it. -/
def crsCheck (env : Externals) (out : ScanOutput) : Bool :=
  let crsIdx := crsFileIndex out.results
  let referenceCrs := (out.results[crsIdx]?).bind ScanResult.crs
  let wkt := resolveWkt env out.results out.canonicalWkt
  out.results.zipIdx.all fun e => e.2 = crsIdx || (crsEqual referenceCrs e.1.crs wkt).1

/-- The result of a loop over checks is an error as soon as one check is. -/
lemma forM_ok {α ε : Type} {f : α → Except ε Unit} {l : List α} (h : l.forM f = .ok ()) :
    ∀ x ∈ l, f x = .ok () := by
  induction l with
  | nil => exact fun x hx => absurd hx List.not_mem_nil
  | cons y l ih =>
    change (f y >>= fun _ => l.forM f) = .ok () at h
    cases hy : f y with
    | error e =>
      rw [hy] at h
      cases h
    | ok u =>
      rw [hy] at h
      intro x hx
      rcases List.mem_cons.mp hx with rfl | hx
      · exact hy
      · exact ih h x hx

/-- Peel the first check off a run. -/
lemma bind_ok {α β ε : Type} {x : Except ε α} {f : α → Except ε β} {v : β}
    (h : (x >>= f) = .ok v) : ∃ a, x = .ok a ∧ f a = .ok v := by
  cases x with
  | error e => cases h
  | ok a => exact ⟨a, rfl, h⟩

/-- What an accepted validation has checked. -/
lemma validate_ok {out : ScanOutput} {inputFiles : List String} {temporalIndex : Option UInt32}
    {v : ValidatedInputs} (h : out.validate env inputFiles temporalIndex = .ok v) :
    ∃ first rest, out.results = first :: rest ∧
      (∀ e ∈ out.results.zipIdx, checkFile inputFiles (crsFileIndex out.results)
        (out.results.getD (crsFileIndex out.results) first).crs first.pointFormatId
        (resolveWkt env out.results out.canonicalWkt) e = .ok ()) ∧
      ∀ e ∈ out.results.zipIdx, checkExtras env inputFiles (referenceExtrasIdx out.results)
        (out.results.getD (referenceExtrasIdx out.results) first) e = .ok () := by
  obtain ⟨results, wkt, vlr⟩ := out
  unfold ScanOutput.validate validate at h
  cases results with
  | nil => cases h
  | cons first rest =>
    obtain ⟨u₁, h₁, h⟩ := bind_ok h
    obtain ⟨u₂, h₂, -⟩ := bind_ok h
    exact ⟨first, rest, rfl, forM_ok h₁, forM_ok h₂⟩

lemma crsFileIndex_lt (results : List ScanResult) (h : results ≠ []) :
    crsFileIndex results < results.length := by
  unfold crsFileIndex
  cases hf : results.findIdx? (fun r => r.crs.isSome) with
  | none => exact List.length_pos_iff.mpr h
  | some i => exact (List.findIdx?_eq_some_iff_getElem.mp hf).1

/-- Accepted files pass the CRS check. -/
lemma crsCheck_of_validate {out : ScanOutput} {inputFiles : List String}
    {temporalIndex : Option UInt32} {v : ValidatedInputs}
    (h : out.validate env inputFiles temporalIndex = .ok v) : crsCheck env out = true := by
  obtain ⟨first, rest, hres, hfile, -⟩ := validate_ok h
  have hlt := crsFileIndex_lt out.results (by rw [hres]; exact List.cons_ne_nil _ _)
  refine List.all_eq_true.mpr fun e he => ?_
  have hcheck := hfile e he
  unfold checkFile at hcheck
  rw [List.getD_eq_getElem?_getD, List.getElem?_eq_getElem hlt, Option.getD_some] at hcheck
  rw [List.getElem?_eq_getElem hlt, Option.bind_some]
  by_cases hbad : e.2 ≠ crsFileIndex out.results ∧ (crsEqual
      (out.results[crsFileIndex out.results]).crs e.1.crs
      (resolveWkt env out.results out.canonicalWkt)).1 = false
  · rw [if_pos hbad] at hcheck
    cases hcheck
  · simpa [or_iff_not_imp_left] using hbad

/-! ## Comparing with the reference -/

lemma compatible_wkt_wkt {h h' : UInt64} {wkt : Option (List UInt8)} :
    (crsKindsCompatible (.wktHash h) (.wktHash h') wkt).1 = true ↔ h = h' := by
  simp [crsKindsCompatible]

lemma epsgCompatible_iff {a b : UInt16} {av bv : Option UInt16} :
    (epsgCompatible a av b bv).1 = true ↔ a = b := by
  unfold epsgCompatible
  split_ifs with h h'
  · simp [h.1]
  · simp [h']
  · simp [h']

lemma compatible_geo_geo {a b : UInt16} {av bv : Option UInt16} {wkt : Option (List UInt8)} :
    (crsKindsCompatible (.geoTiffEpsg a av) (.geoTiffEpsg b bv) wkt).1 = true ↔ a = b :=
  epsgCompatible_iff

/-- Two files of different kinds agree when the canonical WKT has the GeoTIFF code. -/
lemma compatible_geo_wkt {h : UInt64} {a : UInt16} {v : Option UInt16}
    {wkt : Option (List UInt8)} :
    (crsKindsCompatible (.geoTiffEpsg a v) (.wktHash h) wkt).1 = true ↔
      ∃ w wv, wkt = some w ∧ getEpsgFromWktCrsBytes w = some (a, wv) := by
  unfold crsKindsCompatible
  cases wkt with
  | none => simp
  | some w =>
    cases hw : getEpsgFromWktCrsBytes w with
    | none => simp [hw]
    | some code =>
      obtain ⟨wh, wv⟩ := code
      simp only [hw, epsgCompatible_iff]
      constructor
      · rintro rfl
        exact ⟨w, wv, rfl, hw⟩
      · rintro ⟨w', wv', he, hw'⟩
        rw [← Option.some.inj he, hw] at hw'
        exact congrArg Prod.fst (Option.some.inj hw')

lemma compatible_wkt_geo {h : UInt64} {a : UInt16} {v : Option UInt16}
    {wkt : Option (List UInt8)} :
    (crsKindsCompatible (.wktHash h) (.geoTiffEpsg a v) wkt).1 = true ↔
      ∃ w wv, wkt = some w ∧ getEpsgFromWktCrsBytes w = some (a, wv) :=
  compatible_geo_wkt (h := h) (v := v)

/-- A CRS is compatible with itself unless kinds are mixed. -/
lemma compatible_self (a : CrsKind) (wkt : Option (List UInt8)) :
    (crsKindsCompatible a a wkt).1 = true := by
  cases a with
  | wktHash h => exact compatible_wkt_wkt.mpr rfl
  | geoTiffEpsg a v => exact compatible_geo_geo.mpr rfl

/-- The CRS of a scanned file. -/
def ScannedFile.crs (f : ScannedFile env) : Option CrsKind := f.result.crs

/-- The WKT text that mixed comparisons of a list of files read. -/
def wktOf (files : List (ScannedFile env)) : Option (List UInt8) :=
  resolveWkt env (aggregate files).results (aggregate files).canonicalWkt

/-- When some file has a WKT text, mixed comparisons read the first one. -/
lemma wktOf_eq {files : List (ScannedFile env)} {w : List UInt8}
    (h : files.findSome? ScannedFile.wkt = some w) : wktOf files = some w := by
  unfold wktOf resolveWkt aggregate
  simp only [h]

/-- The files pass when none has a CRS, or all have one that is compatible with the first file's. -/
lemma crsCheck_iff {files : List (ScannedFile env)} : crsCheck env (aggregate files) = true ↔
    (∀ f ∈ files, f.crs = none) ∨ ∃ r rest a, files = r :: rest ∧ r.crs = some a ∧
      ∀ f ∈ files, ∃ k, f.crs = some k ∧ (crsKindsCompatible a k (wktOf files)).1 = true := by
  unfold crsCheck
  rw [← wktOf, List.all_eq_true]
  have hres : (aggregate files).results = files.map ScannedFile.result := rfl
  have hidx : crsFileIndex (aggregate files).results =
      (files.findIdx? fun f => f.crs.isSome).getD 0 := by
    unfold crsFileIndex
    rw [hres, List.findIdx?_map]
    rfl
  cases hfind : files.findIdx? (fun f => f.crs.isSome) with
  | none =>
    have hnone : ∀ f ∈ files, f.crs = none := fun f hf => by
      simpa using List.findIdx?_eq_none_iff.mp hfind f hf
    refine iff_of_true (fun e he => ?_) (Or.inl hnone)
    have hcrs : ∀ r ∈ (aggregate files).results, r.crs = none := fun r hr => by
      obtain ⟨f, hf, rfl⟩ := List.mem_map.mp (hres ▸ hr)
      exact hnone f hf
    have href : ((aggregate files).results[crsFileIndex (aggregate files).results]?).bind
        ScanResult.crs = none := by
      rw [Option.bind_eq_none_iff]
      exact fun r hr => hcrs r (List.mem_of_getElem? hr)
    rw [href, hcrs e.1 (List.fst_mem_of_mem_zipIdx he)]
    simp [crsEqual]
  | some i =>
    obtain ⟨hi, hcrs, hbefore⟩ := List.findIdx?_eq_some_iff_getElem.mp hfind
    obtain ⟨a, ha⟩ := Option.isSome_iff_exists.mp hcrs
    have href : ((aggregate files).results[crsFileIndex (aggregate files).results]?).bind
        ScanResult.crs = some a := by
      rw [hidx, hfind, Option.getD_some, hres, List.getElem?_map, List.getElem?_eq_getElem hi]
      exact ha
    rw [href, hidx, hfind, Option.getD_some]
    have hequal : ∀ f : ScannedFile env, (crsEqual (some a) f.result.crs (wktOf files)).1 = true ↔
        ∃ k, f.crs = some k ∧ (crsKindsCompatible a k (wktOf files)).1 = true := fun f => by
      unfold ScannedFile.crs crsEqual
      cases f.result.crs with
      | none => simp
      | some k => simp
    constructor
    · intro hall
      have hfile : ∀ f ∈ files, ∃ k, f.crs = some k ∧
          (crsKindsCompatible a k (wktOf files)).1 = true := fun f hf => by
        obtain ⟨j, hj, rfl⟩ := List.mem_iff_getElem.mp hf
        by_cases hji : j = i
        · subst hji
          exact ⟨a, ha, compatible_self a _⟩
        · have hmem : (files[j].result, j) ∈ (aggregate files).results.zipIdx := by
            rw [List.mem_zipIdx_iff_getElem?, hres, List.getElem?_map, List.getElem?_eq_getElem hj]
            rfl
          have h := hall _ hmem
          rw [Bool.or_eq_true, decide_eq_true_eq] at h
          exact (hequal _).mp (h.resolve_left hji)
      -- all files have a CRS, so the reference is the first one
      obtain rfl : i = 0 := by
        by_contra hne
        have hpos : 0 < i := Nat.pos_of_ne_zero hne
        obtain ⟨k, hk, -⟩ := hfile (files[0]) (List.getElem_mem _)
        exact hbefore 0 hpos (by rw [show files[0].crs = some k from hk]; rfl)
      obtain _ | ⟨r, rest⟩ := files
      · exact absurd hi (Nat.not_lt_zero 0)
      · exact Or.inr ⟨r, rest, a, rfl, ha, hfile⟩
    · rintro (hnone | ⟨r, rest, a', rfl, hr, hfile⟩)
      · have h := hnone _ (List.getElem_mem hi)
        rw [h] at ha
        cases ha
      · obtain rfl : i = 0 := by
          by_contra hne
          exact hbefore 0 (Nat.pos_of_ne_zero hne) (by
            rw [List.getElem_cons_zero, hr]
            rfl)
        obtain rfl : a' = a := by
          rw [List.getElem_cons_zero, hr] at ha
          exact Option.some.inj ha
        intro e he
        obtain ⟨f, hf, hfe⟩ := List.mem_map.mp (hres ▸ List.fst_mem_of_mem_zipIdx he)
        rw [Bool.or_eq_true, ← hfe]
        exact Or.inr ((hequal f).mpr (hfile f hf))

/-! ## Files that share their CRS -/

/-- All files have a CRS and any two agree, the WKT text of one being compared with the GeoTIFF code
of another. -/
structure SharedCrs (files : List (ScannedFile env)) : Prop where
  present : ∀ f ∈ files, f.crs ≠ none
  hashes : ∀ f ∈ files, ∀ g ∈ files, ∀ h h', f.crs = some (.wktHash h) →
    g.crs = some (.wktHash h') → h = h'
  codes : ∀ f ∈ files, ∀ g ∈ files, ∀ a v b u, f.crs = some (.geoTiffEpsg a v) →
    g.crs = some (.geoTiffEpsg b u) → a = b
  mixed : ∀ f ∈ files, ∀ g ∈ files, ∀ w a v, f.wkt = some w →
    g.crs = some (.geoTiffEpsg a v) → ∃ wv, getEpsgFromWktCrsBytes w = some (a, wv)

/-- When every file has a CRS, the GeoTIFF files have one horizontal code and some WKT text has that
code too, then all WKT texts have that code and one hash. -/
def CrsUnambiguous (files : List (ScannedFile env)) : Prop :=
  ∀ a, (∀ f ∈ files, f.crs ≠ none) →
    (∃ f ∈ files, ∃ v, f.crs = some (.geoTiffEpsg a v)) →
    (∀ f ∈ files, ∀ b v, f.crs = some (.geoTiffEpsg b v) → b = a) →
    (∃ f ∈ files, ∃ w v, f.wkt = some w ∧ getEpsgFromWktCrsBytes w = some (a, v)) →
    ∀ f ∈ files, ∀ w, f.wkt = some w →
      (∃ v, getEpsgFromWktCrsBytes w = some (a, v)) ∧
        ∀ g ∈ files, ∀ w', g.wkt = some w' → bytesHash env w = bytesHash env w'

/-- Listing the files in another order changes nothing about what they share. -/
lemma SharedCrs.perm {files files' : List (ScannedFile env)} (hp : files'.Perm files)
    (h : SharedCrs files) : SharedCrs files' where
  present f hf := h.present f (hp.mem_iff.mp hf)
  hashes f hf g hg := h.hashes f (hp.mem_iff.mp hf) g (hp.mem_iff.mp hg)
  codes f hf g hg := h.codes f (hp.mem_iff.mp hf) g (hp.mem_iff.mp hg)
  mixed f hf g hg := h.mixed f (hp.mem_iff.mp hf) g (hp.mem_iff.mp hg)

lemma CrsUnambiguous.perm {files files' : List (ScannedFile env)} (hp : files'.Perm files)
    (h : CrsUnambiguous files) : CrsUnambiguous files' := by
  unfold CrsUnambiguous at *
  simpa only [hp.mem_iff] using h

/-- A WKT file has a text with its hash. -/
lemma ScannedFile.exists_wkt {f : ScannedFile env} {h : UInt64} (hf : f.crs = some (.wktHash h)) :
    ∃ w, f.wkt = some w ∧ bytesHash env w = h := (f.crs_wkt h).mp hf

/-- A file with a text is a WKT file. -/
lemma ScannedFile.crs_of_wkt {f : ScannedFile env} {w : List UInt8} (hf : f.wkt = some w) :
    f.crs = some (.wktHash (bytesHash env w)) := (f.crs_wkt _).mpr ⟨w, hf, rfl⟩

/-- The first text of a list of files with a WKT file is the text of one of them. -/
lemma exists_wktOf {files : List (ScannedFile env)} {f : ScannedFile env} (hf : f ∈ files)
    {w : List UInt8} (hw : f.wkt = some w) : ∃ g ∈ files, ∃ w', g.wkt = some w' ∧
      wktOf files = some w' := by
  have hsome : (files.findSome? ScannedFile.wkt).isSome :=
    List.findSome?_isSome_iff.mpr ⟨f, hf, by rw [hw]; rfl⟩
  obtain ⟨w', hw'⟩ := Option.isSome_iff_exists.mp hsome
  obtain ⟨g, hg, hgw⟩ := List.exists_of_findSome?_eq_some hw'
  exact ⟨g, hg, w', hgw, wktOf_eq hw'⟩

/-- On unambiguous files the check accepts exactly those without any CRS and those that share
one. -/
lemma crsCheck_iff_shared {files : List (ScannedFile env)} (hun : CrsUnambiguous files) :
    crsCheck env (aggregate files) = true ↔ (∀ f ∈ files, f.crs = none) ∨ SharedCrs files := by
  rw [crsCheck_iff]
  constructor
  · rintro (hnone | ⟨r, rest, a, rfl, hr, hall⟩)
    · exact Or.inl hnone
    apply Or.inr
    have hpresent : ∀ f ∈ r :: rest, f.crs ≠ none := fun f hf hnone => by
      obtain ⟨k, hk, -⟩ := hall f hf
      rw [hk] at hnone
      cases hnone
    cases a with
    | wktHash h =>
      obtain ⟨w, hw, hwh⟩ := r.exists_wkt hr
      have hwkt : wktOf (r :: rest) = some w := wktOf_eq (by rw [List.findSome?_cons, hw])
      have hhash : ∀ f ∈ r :: rest, ∀ h', f.crs = some (.wktHash h') → h = h' :=
        fun f hf h' hf' => by
          obtain ⟨k, hk, hcomp⟩ := hall f hf
          obtain rfl := Option.some.inj (hf'.symm.trans hk)
          exact compatible_wkt_wkt.mp hcomp
      have hcode : ∀ f ∈ r :: rest, ∀ b v, f.crs = some (.geoTiffEpsg b v) →
          ∃ wv, getEpsgFromWktCrsBytes w = some (b, wv) := fun f hf b v hf' => by
        obtain ⟨k, hk, hcomp⟩ := hall f hf
        obtain rfl := Option.some.inj (hf'.symm.trans hk)
        obtain ⟨w', wv, hw', hcode⟩ := compatible_wkt_geo.mp hcomp
        rw [hwkt] at hw'
        exact ⟨wv, Option.some.inj hw' ▸ hcode⟩
      refine ⟨hpresent, fun f hf g hg h₁ h₂ hf' hg' => ?_, fun f hf g hg b v c u hf' hg' => ?_,
        fun f hf g hg w' b v hf' hg' => ?_⟩
      · rw [← hhash f hf h₁ hf', ← hhash g hg h₂ hg']
      · obtain ⟨wv, h₁⟩ := hcode f hf b v hf'
        obtain ⟨wu, h₂⟩ := hcode g hg c u hg'
        rw [h₁] at h₂
        exact congrArg Prod.fst (Option.some.inj h₂)
      · obtain ⟨wv, h₁⟩ := hcode g hg b v hg'
        have huniform : ∀ f ∈ r :: rest, ∀ c u, f.crs = some (.geoTiffEpsg c u) → c = b :=
          fun f hf c u hfc => by
            obtain ⟨wu, h₂⟩ := hcode f hf c u hfc
            rw [h₁] at h₂
            exact (congrArg Prod.fst (Option.some.inj h₂)).symm
        exact (hun b hpresent ⟨g, hg, v, hg'⟩ huniform
          ⟨r, List.mem_cons_self, w, wv, hw, h₁⟩ f hf w' hf').1
    | geoTiffEpsg a v =>
      have hcodes : ∀ f ∈ r :: rest, ∀ b u, f.crs = some (.geoTiffEpsg b u) → b = a :=
        fun f hf b u hf' => by
          obtain ⟨k, hk, hcomp⟩ := hall f hf
          obtain rfl := Option.some.inj (hf'.symm.trans hk)
          exact (compatible_geo_geo.mp hcomp).symm
      -- a WKT file is there only if the first text has the code of the reference
      have hfirst : ∀ f ∈ r :: rest, ∀ w, f.wkt = some w → ∃ g ∈ r :: rest, ∃ w' wv,
          g.wkt = some w' ∧ getEpsgFromWktCrsBytes w' = some (a, wv) := fun f hf w hw => by
        obtain ⟨g, hg, w', hgw, hwkt⟩ := exists_wktOf hf hw
        obtain ⟨k, hk, hcomp⟩ := hall f hf
        obtain rfl := Option.some.inj ((f.crs_of_wkt hw).symm.trans hk)
        obtain ⟨w'', wv, hw'', hcode⟩ := compatible_geo_wkt.mp hcomp
        rw [hwkt] at hw''
        exact ⟨g, hg, w', wv, hgw, Option.some.inj hw'' ▸ hcode⟩
      have hall' : ∀ f ∈ r :: rest, ∀ w, f.wkt = some w →
          (∃ v, getEpsgFromWktCrsBytes w = some (a, v)) ∧
            ∀ g ∈ r :: rest, ∀ w', g.wkt = some w' → bytesHash env w = bytesHash env w' :=
        fun f hf w hw => hun a hpresent ⟨r, List.mem_cons_self, v, hr⟩ hcodes (hfirst f hf w hw)
          f hf w hw
      refine ⟨hpresent, fun f hf g hg h₁ h₂ hf' hg' => ?_, fun f hf g hg b v c u hf' hg' => ?_,
        fun f hf g hg w' b u hf' hg' => ?_⟩
      · obtain ⟨w₁, hw₁, rfl⟩ := f.exists_wkt hf'
        obtain ⟨w₂, hw₂, rfl⟩ := g.exists_wkt hg'
        exact (hall' f hf w₁ hw₁).2 g hg w₂ hw₂
      · rw [hcodes f hf b v hf', hcodes g hg c u hg']
      · rw [hcodes g hg b u hg']
        exact (hall' f hf w' hf').1
  · rintro (hnone | hshared)
    · exact Or.inl hnone
    obtain _ | ⟨r, rest⟩ := files
    · exact Or.inl fun f hf => absurd hf List.not_mem_nil
    obtain ⟨a, ha⟩ := Option.ne_none_iff_exists'.mp (hshared.present r List.mem_cons_self)
    refine Or.inr ⟨r, rest, a, rfl, ha, fun f hf => ?_⟩
    obtain ⟨k, hk⟩ := Option.ne_none_iff_exists'.mp (hshared.present f hf)
    refine ⟨k, hk, ?_⟩
    cases a with
    | wktHash h =>
      obtain ⟨w, hw, -⟩ := r.exists_wkt ha
      have hwkt : wktOf (r :: rest) = some w := wktOf_eq (by rw [List.findSome?_cons, hw])
      cases k with
      | wktHash h' =>
        exact compatible_wkt_wkt.mpr (hshared.hashes r List.mem_cons_self f hf h h' ha hk)
      | geoTiffEpsg b v =>
        obtain ⟨wv, hcode⟩ := hshared.mixed r List.mem_cons_self f hf w b v hw hk
        exact compatible_wkt_geo.mpr ⟨w, wv, hwkt, hcode⟩
    | geoTiffEpsg a v =>
      cases k with
      | wktHash h' =>
        obtain ⟨w, hw, -⟩ := f.exists_wkt hk
        obtain ⟨g, hg, w', hgw, hwkt⟩ := exists_wktOf hf hw
        obtain ⟨wv, hcode⟩ := hshared.mixed g hg r List.mem_cons_self w' a v hgw ha
        exact compatible_geo_wkt.mpr ⟨w', wv, hwkt, hcode⟩
      | geoTiffEpsg b u =>
        exact compatible_geo_geo.mpr (hshared.codes r List.mem_cons_self f hf a v b u ha hk)

/-! ## The exact condition -/

/-- What the check is for: accepted files carry one WKT hash and one horizontal GeoTIFF code, and
acceptance does not depend on the order of the files. -/
def CrsAgreement (files : List (ScannedFile env)) : Prop :=
  (∀ inputFiles temporalIndex v,
    (aggregate files).validate env inputFiles temporalIndex = .ok v →
      (∀ f ∈ files, ∀ g ∈ files, ∀ h h', f.crs = some (.wktHash h) →
        g.crs = some (.wktHash h') → h = h') ∧
      ∀ f ∈ files, ∀ g ∈ files, ∀ a u b v, f.crs = some (.geoTiffEpsg a u) →
        g.crs = some (.geoTiffEpsg b v) → a = b) ∧
  ∀ files' : List (ScannedFile env), files'.Perm files →
    crsCheck env (aggregate files') = crsCheck env (aggregate files)

/-- Any element of a list can be moved to its front. -/
lemma exists_cons_perm {α : Type} {x : α} {l : List α} (h : x ∈ l) : ∃ l', (x :: l').Perm l := by
  obtain ⟨s, t, rfl⟩ := List.append_of_mem h
  exact ⟨s ++ t, List.perm_middle.symm⟩

/-- With a GeoTIFF file first and a WKT text next, the check asks this text only. -/
lemma crsCheck_geo_first {q s : ScannedFile env} {rest : List (ScannedFile env)} {a : UInt16}
    {v : Option UInt16} {w : List UInt8} (hq : q.crs = some (.geoTiffEpsg a v))
    (hs : s.wkt = some w) (hpresent : ∀ f ∈ q :: s :: rest, f.crs ≠ none)
    (hcodes : ∀ f ∈ q :: s :: rest, ∀ b u, f.crs = some (.geoTiffEpsg b u) → b = a) :
    crsCheck env (aggregate (q :: s :: rest)) = true ↔
      ∃ wv, getEpsgFromWktCrsBytes w = some (a, wv) := by
  have hqw : q.wkt = none := by
    cases hw : q.wkt with
    | none => rfl
    | some w' =>
      rw [q.crs_of_wkt hw] at hq
      cases hq
  have hwkt : wktOf (q :: s :: rest) = some w :=
    wktOf_eq (by rw [List.findSome?_cons, hqw, List.findSome?_cons, hs])
  rw [crsCheck_iff]
  constructor
  · rintro (hnone | ⟨r, rest', k, heq, hr, hall⟩)
    · rw [hnone q List.mem_cons_self] at hq
      cases hq
    · obtain ⟨rfl, -⟩ := List.cons.inj heq
      obtain rfl := Option.some.inj (hq.symm.trans hr)
      obtain ⟨k, hk, hcomp⟩ := hall s (List.mem_cons_of_mem _ List.mem_cons_self)
      obtain rfl := Option.some.inj ((s.crs_of_wkt hs).symm.trans hk)
      obtain ⟨w', wv, hw', hcode⟩ := compatible_geo_wkt.mp hcomp
      rw [hwkt] at hw'
      exact ⟨wv, Option.some.inj hw' ▸ hcode⟩
  · rintro ⟨wv, hcode⟩
    refine Or.inr ⟨q, s :: rest, _, rfl, hq, fun f hf => ?_⟩
    obtain ⟨k, hk⟩ := Option.ne_none_iff_exists'.mp (hpresent f hf)
    refine ⟨k, hk, ?_⟩
    cases k with
    | wktHash h => exact compatible_geo_wkt.mpr ⟨w, wv, hwkt, hcode⟩
    | geoTiffEpsg b u => exact compatible_geo_geo.mpr (hcodes f hf b u hk).symm

/-- The CRS check is sound and independent of the order exactly on the unambiguous lists. -/
theorem crsAgreement_iff (files : List (ScannedFile env)) :
    CrsAgreement files ↔ CrsUnambiguous files := by
  constructor
  · rintro ⟨-, horder⟩ a hpresent ⟨q, hq, v, hqa⟩ hcodes ⟨s, hs, ws, vs, hsw, hcode⟩ f hf w hw
    have hne : ∀ {g : ScannedFile env} {w}, g.wkt = some w → g ≠ q := by
      rintro g w hg rfl
      rw [g.crs_of_wkt hg] at hqa
      cases hqa
    -- any WKT file can be listed right after the GeoTIFF file
    have hlist : ∀ {g : ScannedFile env} {w}, g ∈ files → g.wkt = some w →
        ∃ rest, (q :: g :: rest).Perm files := fun {g w} hg hgw => by
      obtain ⟨l, hl⟩ := exists_cons_perm hq
      obtain ⟨rest, hrest⟩ := exists_cons_perm
        ((List.mem_cons.mp (hl.mem_iff.mpr hg)).resolve_left (hne hgw))
      exact ⟨rest, (hrest.cons q).trans hl⟩
    have hafter : ∀ {g : ScannedFile env} {w rest}, g.wkt = some w →
        (q :: g :: rest).Perm files → (crsCheck env (aggregate (q :: g :: rest)) = true ↔
          ∃ wv, getEpsgFromWktCrsBytes w = some (a, wv)) := fun {g w rest} hgw hp =>
      crsCheck_geo_first hqa hgw (fun f hf => hpresent f (hp.mem_iff.mp hf))
        fun f hf => hcodes f (hp.mem_iff.mp hf)
    obtain ⟨rest, hp⟩ := hlist hs hsw
    have haccept : crsCheck env (aggregate files) = true := by
      rw [← horder _ hp]
      exact (hafter hsw hp).mpr ⟨vs, hcode⟩
    refine ⟨?_, fun g hg w' hgw => ?_⟩
    · obtain ⟨rest', hp'⟩ := hlist hf hw
      rw [← horder _ hp'] at haccept
      exact (hafter hw hp').mp haccept
    · -- with the WKT file first, the other texts are compared by their hashes
      obtain ⟨l, hl⟩ := exists_cons_perm hf
      rw [← horder _ hl, crsCheck_iff] at haccept
      rcases haccept with hnone | ⟨r, rest', k, heq, hr, hall⟩
      · exact absurd (hnone f List.mem_cons_self) (hpresent f hf)
      · obtain ⟨rfl, -⟩ := List.cons.inj heq
        obtain rfl := Option.some.inj ((f.crs_of_wkt hw).symm.trans hr)
        obtain ⟨k', hk', hcomp⟩ := hall g (hl.mem_iff.mpr hg)
        obtain rfl := Option.some.inj ((g.crs_of_wkt hgw).symm.trans hk')
        exact compatible_wkt_wkt.mp hcomp
  · intro hun
    refine ⟨fun inputFiles temporalIndex v hok => ?_, fun files' hp => ?_⟩
    · rcases (crsCheck_iff_shared hun).mp (crsCheck_of_validate hok) with hnone | hshared
      · refine ⟨fun f hf g hg h h' hf' => ?_, fun f hf g hg a u b v hf' => ?_⟩
        · rw [hnone f hf] at hf'
          cases hf'
        · rw [hnone f hf] at hf'
          cases hf'
      · exact ⟨hshared.hashes, hshared.codes⟩
    · rw [Bool.eq_iff_iff, crsCheck_iff_shared (hun.perm hp), crsCheck_iff_shared hun]
      refine or_congr ?_ ⟨fun h => h.perm hp.symm, fun h => h.perm hp⟩
      simp only [hp.mem_iff]

/-! ## Three files -/

/-- Hashing by the bytes in base 257, an empty registry, and plain formatting. -/
def plainExternals : Externals where
  hasher bytes := UInt64.ofNat (bytes.foldl (fun h b => h * 257 + b.toNat + 1) 0)
  fromCode _ := none
  debugStr s := text s
  debugF64 v := toString v.bits.toNat

/-- A WKT text in its shortest form: a name and an EPSG identifier. -/
def shortWkt (name code : String) : List UInt8 :=
  Bytes.ascii ("PROJCRS[\"" ++ name ++ "\",ID[\"EPSG\"," ++ code ++ "]]")

/-- A file with a WKT text. -/
def wktHeader (wkt : List UInt8) : LasHeader := ⟨some wkt, none, [], 0, 6⟩

/-- A file with a projected GeoTIFF CRS. -/
def geoTiffHeader (code : UInt16) : LasHeader :=
  ⟨none, some ⟨some 1, some code, none, none⟩, [], 0, 6⟩

/-- A file without extra bytes, as scanned. -/
def plainFile (header : LasHeader) : ScannedFile plainExternals where
  result := ⟨(scanCrs plainExternals header).1, none, none, header.extraBytes, header.pointFormat⟩
  wkt := (scanCrs plainExternals header).2
  extraBytesVlr := none
  crs_wkt := scanCrs_wkt plainExternals header
  parsed _ h := by cases h
  undeclared _ := rfl
  hashed := rfl

/-- A GeoTIFF file with the code 3006, a WKT file with that code and one with the code 4326. -/
def mixedFiles : List (ScannedFile plainExternals) :=
  [plainFile (geoTiffHeader 3006), plainFile (wktHeader (shortWkt "SWEREF99 TM" "3006")),
    plainFile (wktHeader (shortWkt "WGS 84" "4326"))]

/-- The three files are accepted, with two WKT texts of different codes among them; and with the
last two exchanged they are rejected. -/
theorem validate_mixedFiles :
    ((aggregate mixedFiles).validate plainExternals ["a", "b", "c"] none).isOk = true ∧
      crsCheck plainExternals (aggregate [plainFile (geoTiffHeader 3006),
        plainFile (wktHeader (shortWkt "WGS 84" "4326")),
        plainFile (wktHeader (shortWkt "SWEREF99 TM" "3006"))]) = false ∧
      ¬ CrsAgreement mixedFiles := by
  have hok : ((aggregate mixedFiles).validate plainExternals ["a", "b", "c"] none).isOk = true := by
    decide +kernel
  refine ⟨hok, by decide +kernel, fun h => ?_⟩
  cases hv : (aggregate mixedFiles).validate plainExternals ["a", "b", "c"] none with
  | error e =>
    rw [hv] at hok
    cases hok
  | ok v =>
    have hhash := (h.1 _ _ _ hv).1 (plainFile (wktHeader (shortWkt "SWEREF99 TM" "3006")))
      (by simp [mixedFiles]) (plainFile (wktHeader (shortWkt "WGS 84" "4326")))
      (by simp [mixedFiles]) _ _ rfl rfl
    exact absurd hhash (by decide +kernel)

end CopcConverter
