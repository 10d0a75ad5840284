import Mathlib

/-!
# Trees of pages in a flat list

An index of entries is cut into pages.  At every boundary some entries stay in the page and the
others are divided into groups; every group becomes a page of its own, to which the page points.
The pages lie in one flat list, a page before the pages it points to, and a pointer names the
number of its target in the list.

Walking from a page along the pointers visits exactly the pages built for its entries, in the order
of the list; and a search that follows the pointer of the right group finds its entry.
-/

namespace PageTree

variable {α β π γ δ : Type}

/-! ## Records -/

/-- A record of a page: an entry, or a pointer to another page. -/
inductive Record (α π γ : Type) where
  | entry (e : α)
  | pointer (p : π) (target : γ)

namespace Record

/-- The entry of a record that is one. -/
def leaf? : Record α π γ → Option α
  | entry e => some e
  | pointer _ _ => none

/-- The target of a record that is a pointer. -/
def target? : Record α π γ → Option γ
  | entry _ => none
  | pointer _ g => some g

/-- Name the targets in another way. -/
def retarget (f : γ → δ) : Record α π γ → Record α π δ
  | entry e => entry e
  | pointer p g => pointer p (f g)

/-- Pointers that keep their targets. -/
@[simp] lemma retarget_id : (retarget id : Record α π γ → Record α π γ) = id := by
  funext r
  cases r <;> rfl

@[simp] lemma leaf?_retarget (f : γ → δ) (r : Record α π γ) :
    (r.retarget f).leaf? = r.leaf? := by cases r <;> rfl

@[simp] lemma target?_retarget (f : γ → δ) (r : Record α π γ) :
    (r.retarget f).target? = r.target?.map f := by cases r <;> rfl

end Record

/-- The entries of a page. -/
def entries (rs : List (Record α π γ)) : List α := rs.filterMap Record.leaf?

/-- The pages that a page points to. -/
def targets (rs : List (Record α π γ)) : List γ := rs.filterMap Record.target?

@[simp] lemma entries_retarget (f : γ → δ) (rs : List (Record α π γ)) :
    entries (rs.map (Record.retarget f)) = entries rs := by
  rw [entries, List.filterMap_map, entries]
  congr 1
  funext r
  exact r.leaf?_retarget f

@[simp] lemma targets_retarget (f : γ → δ) (rs : List (Record α π γ)) :
    targets (rs.map (Record.retarget f)) = (targets rs).map f := by
  rw [targets, List.filterMap_map, targets, List.map_filterMap]
  congr 1
  funext r
  exact r.target?_retarget f

@[simp] lemma entries_map_entry (es : List α) :
    entries (es.map (Record.entry : α → Record α π γ)) = es := by
  rw [entries, List.filterMap_map]
  exact List.filterMap_some

@[simp] lemma targets_map_entry (es : List α) :
    targets (es.map (Record.entry : α → Record α π γ)) = [] := by
  rw [targets, List.filterMap_map]
  exact List.filterMap_eq_nil_iff.mpr fun _ _ => rfl

lemma entries_append (rs rs' : List (Record α π γ)) :
    entries (rs ++ rs') = entries rs ++ entries rs' := List.filterMap_append

lemma entries_flatten (pages : List (List (Record α π γ))) :
    entries pages.flatten = pages.flatMap entries := by
  rw [entries, List.filterMap_flatten, List.flatMap]
  rfl

lemma targets_append (rs rs' : List (Record α π γ)) :
    targets (rs ++ rs') = targets rs ++ targets rs' := List.filterMap_append

/-! ## Building the pages -/

/-- The pointers to the pages of some groups, and these pages, numbered from `base` on. -/
def childPages (build : List α → ℕ → List (List (Record α π ℕ))) :
    List (π × List α) → ℕ → List (Record α π ℕ) × List (List (Record α π ℕ))
  | [], _ => ([], [])
  | (p, es) :: groups, base =>
    let pages := build es base
    let rest := childPages build groups (base + pages.length)
    (.pointer p base :: rest.1, pages ++ rest.2)

/-- The pages for some entries, numbered from `base` on: at every boundary, `split` says which
entries stay and how the others are grouped. -/
def pagesFrom (split : β → List α → List α × List (π × List α)) :
    List β → List α → ℕ → List (List (Record α π ℕ))
  | [], es, _ => [es.map .entry]
  | b :: bs, es, base =>
    let children := childPages (pagesFrom split bs) (split b es).2 (base + 1)
    ((split b es).1.map .entry ++ children.1) :: children.2

variable {split : β → List α → List α × List (π × List α)}

lemma pagesFrom_ne_nil (bs : List β) (es : List α) (base : ℕ) :
    pagesFrom split bs es base ≠ [] := by
  cases bs <;> exact List.cons_ne_nil _ _

/-! ### Entries -/

lemma entries_childPages (build : List α → ℕ → List (List (Record α π ℕ)))
    (groups : List (π × List α)) (base : ℕ) : entries (childPages build groups base).1 = [] := by
  induction groups generalizing base with
  | nil => rfl
  | cons g groups ih => exact ih _

lemma childPages_entries_perm {build : List α → ℕ → List (List (Record α π ℕ))}
    (hbuild : ∀ es base, ((build es base).flatMap entries).Perm es) (groups : List (π × List α))
    (base : ℕ) :
    ((childPages build groups base).2.flatMap entries).Perm (groups.flatMap Prod.snd) := by
  induction groups generalizing base with
  | nil => exact List.Perm.refl _
  | cons g groups ih =>
    rw [childPages, List.flatMap_append, List.flatMap_cons]
    exact (hbuild g.2 base).append (ih _)

/-- The pages hold the entries, each once, when splitting loses none. -/
lemma pagesFrom_entries_perm
    (hsplit : ∀ b es, ((split b es).1 ++ (split b es).2.flatMap Prod.snd).Perm es) (bs : List β)
    (es : List α) (base : ℕ) : ((pagesFrom split bs es base).flatMap entries).Perm es := by
  induction bs generalizing es base with
  | nil => simp [pagesFrom]
  | cons b bs ih =>
    have hchildren := childPages_entries_perm ih (split b es).2 (base + 1)
    rw [pagesFrom, List.flatMap_cons, entries_append, entries_map_entry, entries_childPages,
      List.append_nil]
    exact (hchildren.append_left _).trans (hsplit b es)

/-- Without empty groups there are, for every entry, at most as many records as pages on the way to
it. -/
lemma pagesFrom_length_le
    (hsplit : ∀ b es, ((split b es).1 ++ (split b es).2.flatMap Prod.snd).Perm es)
    (hgroups : ∀ b es, ∀ g ∈ (split b es).2, g.2 ≠ []) (bs : List β) (es : List α) (base : ℕ) :
    ((pagesFrom split bs es base).map List.length).sum ≤ es.length * (bs.length + 1) := by
  have hchildren : ∀ (build : List α → ℕ → List (List (Record α π ℕ))) (n : ℕ),
      (∀ es base, ((build es base).map List.length).sum ≤ es.length * n) →
      ∀ (groups : List (π × List α)) (base : ℕ), (∀ g ∈ groups, g.2 ≠ []) →
        (childPages build groups base).1.length +
          ((childPages build groups base).2.map List.length).sum ≤
            (groups.flatMap Prod.snd).length * (n + 1) := by
    intro build n hbuild groups
    induction groups with
    | nil => simp [childPages]
    | cons g groups ih =>
      intro base hne
      have hrest := ih (base + (build g.2 base).length)
        fun g hg => hne g (List.mem_cons_of_mem _ hg)
      have hfirst := hbuild g.2 base
      have hpos : 0 < g.2.length := List.length_pos_iff.mpr (hne g List.mem_cons_self)
      rw [childPages, List.length_cons, List.map_append, List.sum_append, List.flatMap_cons,
        List.length_append]
      nlinarith
  induction bs generalizing es base with
  | nil => simp [pagesFrom]
  | cons b bs ih =>
    have hrest := hchildren (pagesFrom split bs) (bs.length + 1) ih (split b es).2 (base + 1)
      (hgroups b es)
    have hlen := (hsplit b es).length_eq
    rw [List.length_append] at hlen
    rw [pagesFrom, List.map_cons, List.sum_cons, List.length_append, List.length_map,
      List.length_cons]
    nlinarith

/-! ### Targets -/

/-- The pages of some groups are those built for one of them. -/
lemma exists_of_mem_childPages {build : List α → ℕ → List (List (Record α π ℕ))}
    {groups : List (π × List α)} {base : ℕ} {rs : List (Record α π ℕ)}
    (h : rs ∈ (childPages build groups base).2) :
    ∃ g ∈ groups, ∃ i, rs ∈ build g.2 i := by
  induction groups generalizing base with
  | nil => cases h
  | cons g groups ih =>
    rcases List.mem_append.mp h with h | h
    · exact ⟨g, List.mem_cons_self, base, h⟩
    · obtain ⟨g', hg', hrs⟩ := ih h
      exact ⟨g', List.mem_cons_of_mem _ hg', hrs⟩

/-- There is one pointer for every group. -/
lemma childPages_pointers (build : List α → ℕ → List (List (Record α π ℕ)))
    (groups : List (π × List α)) (base : ℕ) :
    (childPages build groups base).1.length = groups.length ∧
      ∀ r ∈ (childPages build groups base).1, ∃ g ∈ groups, ∃ i, r = .pointer g.1 i := by
  induction groups generalizing base with
  | nil => exact ⟨rfl, fun r hr => by cases hr⟩
  | cons g groups ih =>
    obtain ⟨hlen, hall⟩ := ih (base + (build g.2 base).length)
    refine ⟨congrArg Nat.succ hlen, fun r hr => ?_⟩
    rcases List.mem_cons.mp hr with rfl | hr
    · exact ⟨g, List.mem_cons_self, base, rfl⟩
    · obtain ⟨g', hg', hr⟩ := hall r hr
      exact ⟨g', List.mem_cons_of_mem _ hg', hr⟩

lemma childPages_targets {build : List α → ℕ → List (List (Record α π ℕ))}
    (hne : ∀ es base, build es base ≠ [])
    (hbuild : ∀ es base, ∀ rs ∈ build es base, ∀ i ∈ targets rs,
      base < i ∧ i < base + (build es base).length) (groups : List (π × List α)) (base : ℕ) :
    ∀ rs ∈ (childPages build groups base).1 :: (childPages build groups base).2,
      ∀ i ∈ targets rs, base ≤ i ∧ i < base + (childPages build groups base).2.length := by
  induction groups generalizing base with
  | nil =>
    intro rs hrs
    obtain rfl := List.mem_singleton.mp hrs
    simp [childPages, targets]
  | cons g groups ih =>
    have hpos : 0 < (build g.2 base).length := List.length_pos_iff.mpr (hne g.2 base)
    have hrest := ih (base + (build g.2 base).length)
    intro rs hrs i hi
    simp only [childPages, List.length_append, List.mem_cons, List.mem_append] at hrs hi ⊢
    rcases hrs with rfl | hrs | hrs
    · rcases List.mem_cons.mp (show i ∈ base :: targets _ from hi) with rfl | hi
      · omega
      · have := hrest _ List.mem_cons_self i hi
        omega
    · have := hbuild g.2 base rs hrs i hi
      omega
    · have := hrest rs (List.mem_cons_of_mem _ hrs) i hi
      omega

/-- Every pointer names one of the pages, and not the first one. -/
lemma pagesFrom_targets (bs : List β) (es : List α) (base : ℕ) :
    ∀ rs ∈ pagesFrom split bs es base, ∀ i ∈ targets rs,
      base < i ∧ i < base + (pagesFrom split bs es base).length := by
  induction bs generalizing es base with
  | nil =>
    intro rs hrs i hi
    obtain rfl := List.mem_singleton.mp hrs
    rw [targets_map_entry] at hi
    cases hi
  | cons b bs ih =>
    have hne : ∀ es base, pagesFrom split bs es base ≠ [] := pagesFrom_ne_nil bs
    have hall := @childPages_targets α π (pagesFrom split bs) hne ih (split b es).2 (base + 1)
    intro rs hrs i hi
    rw [pagesFrom, List.length_cons]
    rw [pagesFrom, List.mem_cons] at hrs
    rcases hrs with rfl | hrs
    · rw [targets_append, targets_map_entry, List.nil_append] at hi
      have := hall _ List.mem_cons_self i hi
      omega
    · have := hall rs (List.mem_cons_of_mem _ hrs) i hi
      omega

/-! ### Records -/

/-- A record satisfies one predicate if it is an entry, and another if it is a pointer. -/
def Record.Satisfies (E : α → Prop) (P : π → Prop) : Record α π γ → Prop
  | entry e => E e
  | pointer p _ => P p

@[simp] lemma Record.satisfies_retarget {E : α → Prop} {P : π → Prop} (f : γ → δ)
    (r : Record α π γ) : (r.retarget f).Satisfies E P ↔ r.Satisfies E P := by
  cases r <;> rfl

/-- What splitting keeps of the entries and of the boundaries left holds of all records of the
pages. -/
lemma pagesFrom_induction {E : α → Prop} {P : π → Prop} {I : List β → List α → Prop}
    (hentries : ∀ bs es, I bs es → ∀ e ∈ es, E e)
    (hown : ∀ b bs es, I (b :: bs) es → ∀ e ∈ (split b es).1, E e)
    (hgroups : ∀ b bs es, I (b :: bs) es → ∀ g ∈ (split b es).2, P g.1 ∧ I bs g.2)
    {bs : List β} {es : List α} (hinv : I bs es) (base : ℕ) :
    ∀ rs ∈ pagesFrom split bs es base, ∀ r ∈ rs, r.Satisfies E P := by
  have hsat : ∀ es : List α, (∀ e ∈ es, E e) →
      ∀ r ∈ es.map (Record.entry : α → Record α π ℕ), r.Satisfies E P := by
    intro es hes r hr
    obtain ⟨e, he, rfl⟩ := List.mem_map.mp hr
    exact hes e he
  induction bs generalizing es base with
  | nil =>
    intro rs hrs
    obtain rfl := List.mem_singleton.mp hrs
    exact hsat es (hentries _ _ hinv)
  | cons b bs ih =>
    intro rs hrs r hr
    rw [pagesFrom, List.mem_cons] at hrs
    rcases hrs with rfl | hrs
    · rcases List.mem_append.mp hr with hr | hr
      · exact hsat _ (hown b bs es hinv) r hr
      · obtain ⟨g, hg, i, rfl⟩ := (childPages_pointers _ _ _).2 r hr
        exact (hgroups b bs es hinv g hg).1
    · obtain ⟨g, hg, i, hrs⟩ := exists_of_mem_childPages hrs
      exact ih (hgroups b bs es hinv g hg).2 i rs hrs r hr

/-- What splitting keeps holds of all records of the pages. -/
lemma pagesFrom_satisfies {E : α → Prop} {P : π → Prop}
    (hsplit : ∀ b es, (∀ e ∈ es, E e) → (∀ e ∈ (split b es).1, E e) ∧
      ∀ g ∈ (split b es).2, P g.1 ∧ ∀ e ∈ g.2, E e)
    (bs : List β) {es : List α} (hes : ∀ e ∈ es, E e) (base : ℕ) :
    ∀ rs ∈ pagesFrom split bs es base, ∀ r ∈ rs, r.Satisfies E P :=
  pagesFrom_induction (I := fun _ es => ∀ e ∈ es, E e) (fun _ _ h => h)
    (fun b _ es h => (hsplit b es h).1) (fun b _ es h => (hsplit b es h).2) hes base

/-- Every group has a pointer, and its pages are among the pages. -/
lemma exists_pointer_of_mem {f : List α → ℕ → List (List (Record α π ℕ))}
    {groups : List (π × List α)} {g : π × List α} (h : g ∈ groups) (base : ℕ) :
    ∃ i, .pointer g.1 i ∈ (childPages f groups base).1 ∧
      ∀ rs ∈ f g.2 i, rs ∈ (childPages f groups base).2 := by
  induction groups generalizing base with
  | nil => cases h
  | cons first groups ih =>
    rcases List.mem_cons.mp h with rfl | h
    · exact ⟨base, List.mem_cons_self, fun rs hrs => List.mem_append_left _ hrs⟩
    · obtain ⟨i, hpointer, hpages⟩ := ih h (base + (f first.2 base).length)
      exact ⟨i, List.mem_cons_of_mem _ hpointer,
        fun rs hrs => List.mem_append_right _ (hpages rs hrs)⟩

/-! ## Walking -/

/-- The results for a list of pages, one after the other. -/
def collect (next : γ → Option (List δ)) : List γ → Option (List δ)
  | [] => some []
  | g :: gs => (next g).bind fun l => (collect next gs).map fun l' => l ++ l'

/-- The pages from a page on with their records: the page itself, then what its pointers lead to.
`read` gives the records of a page. -/
def walk (read : γ → Option (List (Record α π γ))) :
    ℕ → γ → Option (List (γ × List (Record α π γ)))
  | 0, _ => none
  | fuel + 1, g => (read g).bind fun rs =>
    (collect (walk read fuel) (targets rs)).map fun l => (g, rs) :: l

/-- Walking by other names for the pages visits the same pages. -/
theorem walk_retarget {read : γ → Option (List (Record α π γ))}
    {read' : δ → Option (List (Record α π δ))} {f : γ → δ}
    (hread : ∀ g rs, read g = some rs → read' (f g) = some (rs.map (Record.retarget f)))
    {fuel : ℕ} {g : γ} {l : List (γ × List (Record α π γ))} (h : walk read fuel g = some l) :
    walk read' fuel (f g) = some (l.map fun e => (f e.1, e.2.map (Record.retarget f))) := by
  induction fuel generalizing g l with
  | zero => cases h
  | succ fuel ih =>
    obtain ⟨rs, hrs, hrest⟩ := Option.bind_eq_some_iff.mp h
    obtain ⟨below, hbelow, rfl⟩ := Option.map_eq_some_iff.mp hrest
    have hcollect : ∀ gs l, collect (walk read fuel) gs = some l →
        collect (walk read' fuel) (gs.map f) =
          some (l.map fun e => (f e.1, e.2.map (Record.retarget f))) := by
      intro gs
      induction gs with
      | nil =>
        intro l hl
        obtain rfl := Option.some.inj hl
        rfl
      | cons g gs ihgs =>
        intro l hl
        obtain ⟨first, hfirst, hlater⟩ := Option.bind_eq_some_iff.mp hl
        obtain ⟨later, hgs, rfl⟩ := Option.map_eq_some_iff.mp hlater
        rw [List.map_cons, collect, ih hfirst, Option.bind_some, ihgs _ hgs, Option.map_some,
          List.map_append]
    rw [walk, hread g rs hrs, Option.bind_some, targets_retarget, hcollect _ _ hbelow,
      Option.map_some, List.map_cons]

/-- The pages `pages` lie in the list `all` from number `base` on. -/
def Located (all : List (List (Record α π ℕ))) (base : ℕ) (pages : List (List (Record α π ℕ))) :
    Prop :=
  ∀ i, i < pages.length → all[base + i]? = pages[i]?

lemma Located.left {all pages later : List (List (Record α π ℕ))} {base : ℕ}
    (h : Located all base (pages ++ later)) : Located all base pages := by
  intro i hi
  rw [h i (by rw [List.length_append]; omega), List.getElem?_append_left hi]

lemma Located.right {all pages later : List (List (Record α π ℕ))} {base : ℕ}
    (h : Located all base (pages ++ later)) : Located all (base + pages.length) later := by
  intro i hi
  have hall := h (pages.length + i) (by rw [List.length_append]; omega)
  rwa [← Nat.add_assoc, List.getElem?_append_right (by omega), Nat.add_sub_cancel_left] at hall

lemma Located.tail {all pages : List (List (Record α π ℕ))} {base : ℕ} {page : List (Record α π ℕ)}
    (h : Located all base ([page] ++ pages)) : Located all (base + 1) pages := h.right

/-- The pages with their numbers. -/
def numbered (base : ℕ) (pages : List (List (Record α π ℕ))) :
    List (ℕ × List (Record α π ℕ)) :=
  (pages.zipIdx base).map fun e => (e.2, e.1)

lemma numbered_append (base : ℕ) (pages later : List (List (Record α π ℕ))) :
    numbered base (pages ++ later) =
      numbered base pages ++ numbered (base + pages.length) later := by
  rw [numbered, List.zipIdx_append, List.map_append]
  rfl

@[simp] lemma map_snd_numbered (base : ℕ) (pages : List (List (Record α π ℕ))) :
    (numbered base pages).map Prod.snd = pages := by
  rw [numbered, List.map_map]
  exact List.zipIdx_map_fst base pages

lemma childPages_collect {build : List α → ℕ → List (List (Record α π ℕ))}
    {all : List (List (Record α π ℕ))} {fuel : ℕ}
    (hwalk : ∀ es base, Located all base (build es base) →
      walk (fun i => all[i]?) fuel base = some (numbered base (build es base)))
    (groups : List (π × List α)) (base : ℕ)
    (h : Located all base (childPages build groups base).2) :
    collect (walk (fun i => all[i]?) fuel) (targets (childPages build groups base).1) =
      some (numbered base (childPages build groups base).2) := by
  induction groups generalizing base with
  | nil => rfl
  | cons g groups ih =>
    have htargets : targets (childPages build (g :: groups) base).1 =
        base :: targets (childPages build groups (base + (build g.2 base).length)).1 := rfl
    rw [htargets, collect, hwalk g.2 base h.left, Option.bind_some, ih _ h.right, Option.map_some,
      ← numbered_append]
    rfl

/-- **Walking visits the pages** built for some entries in the order of the list. -/
theorem walk_pagesFrom {all : List (List (Record α π ℕ))} {bs : List β} {es : List α} {base : ℕ}
    (h : Located all base (pagesFrom split bs es base)) {fuel : ℕ} (hfuel : bs.length < fuel) :
    walk (fun i => all[i]?) fuel base = some (numbered base (pagesFrom split bs es base)) := by
  induction bs generalizing es base fuel with
  | nil =>
    obtain ⟨fuel, rfl⟩ : ∃ n, fuel = n + 1 := ⟨fuel - 1, by rw [List.length_nil] at hfuel; omega⟩
    have hpage : all[base]? = some (es.map Record.entry) := h 0 Nat.one_pos
    rw [walk, hpage, Option.bind_some, targets_map_entry]
    rfl
  | cons b bs ih =>
    rw [List.length_cons] at hfuel
    obtain ⟨fuel, rfl⟩ : ∃ n, fuel = n + 1 := ⟨fuel - 1, by omega⟩
    have hpage : all[base]? = some _ := h 0 (Nat.succ_pos _)
    have hrest := Located.tail h
    have hcollect := childPages_collect
      (fun _ _ hl => ih hl (show bs.length < fuel by omega)) _ _ hrest
    rw [walk, hpage, Option.bind_some, targets_append, targets_map_entry, List.nil_append, hcollect]
    rfl

/-! ## Searching -/

/-- The targets of the pointers that lead on. -/
def leading (leads : π → Bool) (rs : List (Record α π γ)) : List γ :=
  rs.filterMap fun
    | .entry _ => none
    | .pointer p g => if leads p then some g else none

/-- What a search does on a page: it takes the first entry it looks for, or else follows the pointer
that leads on, which has to be the only one. -/
def pick (isEntry : α → Bool) (leads : π → Bool) (rs : List (Record α π γ)) : Option (α ⊕ γ) :=
  match (entries rs).find? isEntry, leading leads rs with
  | some e, _ => some (.inl e)
  | none, [g] => some (.inr g)
  | none, _ => none

/-- Search from a page on. -/
def seek (read : γ → Option (List (Record α π γ))) (isEntry : α → Bool) (leads : π → Bool) :
    ℕ → γ → Option α
  | 0, _ => none
  | fuel + 1, g => (read g).bind fun rs => (pick isEntry leads rs).bind fun
    | .inl e => some e
    | .inr g' => seek read isEntry leads fuel g'

variable {isEntry : α → Bool} {leads : π → Bool}

lemma leading_append (rs rs' : List (Record α π γ)) :
    leading leads (rs ++ rs') = leading leads rs ++ leading leads rs' := List.filterMap_append

@[simp] lemma leading_map_entry (es : List α) :
    leading leads (es.map (Record.entry : α → Record α π γ)) = [] := by
  rw [leading, List.filterMap_map]
  exact List.filterMap_eq_nil_iff.mpr fun _ _ => rfl

lemma leading_pointer (p : π) (g : γ) (rs : List (Record α π γ)) :
    leading leads (.pointer p g :: rs) =
      if leads p then g :: leading leads rs else leading leads rs := by
  rw [leading, List.filterMap_cons]
  by_cases h : leads p = true
  · simp only [if_pos h]
    rfl
  · simp only [if_neg h]
    rfl

lemma leading_retarget (f : γ → δ) (rs : List (Record α π γ)) :
    leading leads (rs.map (Record.retarget f)) = (leading leads rs).map f := by
  rw [leading, leading, List.filterMap_map, List.map_filterMap]
  congr 1
  funext r
  cases r with
  | entry e => rfl
  | pointer p g =>
    simp only [Function.comp_apply, Record.retarget]
    split_ifs <;> rfl

lemma pick_retarget (f : γ → δ) (rs : List (Record α π γ)) :
    pick isEntry leads (rs.map (Record.retarget f)) =
      (pick isEntry leads rs).map (Sum.map id f) := by
  unfold pick
  rw [entries_retarget, leading_retarget]
  cases (entries rs).find? isEntry with
  | some e => rfl
  | none =>
    obtain _ | ⟨g, _ | ⟨g', rest⟩⟩ := leading leads rs <;> rfl

/-- Searching by other names for the pages finds the same entry. -/
theorem seek_retarget {read : γ → Option (List (Record α π γ))}
    {read' : δ → Option (List (Record α π δ))} {f : γ → δ}
    (hread : ∀ g rs, read g = some rs → read' (f g) = some (rs.map (Record.retarget f)))
    {fuel : ℕ} {g : γ} {e : α} (h : seek read isEntry leads fuel g = some e) :
    seek read' isEntry leads fuel (f g) = some e := by
  induction fuel generalizing g with
  | zero => cases h
  | succ fuel ih =>
    obtain ⟨rs, hrs, hrest⟩ := Option.bind_eq_some_iff.mp h
    obtain ⟨found, hfound, hrest⟩ := Option.bind_eq_some_iff.mp hrest
    rw [seek, hread g rs hrs, Option.bind_some, pick_retarget, hfound, Option.map_some,
      Option.bind_some]
    cases found with
    | inl e' => exact hrest
    | inr g' => exact ih hrest

lemma childPages_leading_eq_nil (build : List α → ℕ → List (List (Record α π ℕ)))
    {groups : List (π × List α)} (h : ∀ g ∈ groups, ¬ leads g.1 = true) (base : ℕ) :
    leading leads (childPages build groups base).1 = [] := by
  induction groups generalizing base with
  | nil => rfl
  | cons g groups ih =>
    rw [childPages, leading_pointer, if_neg (h g List.mem_cons_self)]
    exact ih (fun g hg => h g (List.mem_cons_of_mem _ hg)) _

/-- When one group leads on, so does one pointer, to the pages of that group. -/
lemma childPages_leading {build : List α → ℕ → List (List (Record α π ℕ))}
    {groups : List (π × List α)} {g : π × List α}
    (hunique : groups.filter (fun g => leads g.1) = [g]) (base : ℕ) :
    ∃ i, leading leads (childPages build groups base).1 = [i] ∧
      ∀ all, Located all base (childPages build groups base).2 → Located all i (build g.2 i) := by
  induction groups generalizing base with
  | nil => cases hunique
  | cons first groups ih =>
    rw [childPages, leading_pointer]
    by_cases hleads : leads first.1 = true
    · rw [List.filter_cons, if_pos hleads, List.cons.injEq] at hunique
      obtain ⟨rfl, hnone⟩ := hunique
      refine ⟨base, ?_, fun all hl => hl.left⟩
      rw [if_pos hleads, childPages_leading_eq_nil build (List.filter_eq_nil_iff.mp hnone)]
    · rw [List.filter_cons, if_neg hleads] at hunique
      obtain ⟨i, hi, hlocated⟩ := ih hunique (base + (build first.2 base).length)
      refine ⟨i, ?_, fun all hl => hlocated all hl.right⟩
      rw [if_neg hleads]
      exact hi

/-- The search finds the entry in a list that contains it. -/
lemma find?_eq_some_of_only {e : α} (he : isEntry e = true) {l : List α} (hl : e ∈ l)
    (honly : ∀ x ∈ l, isEntry x = true → x = e) : l.find? isEntry = some e := by
  obtain ⟨x, hx⟩ := Option.isSome_iff_exists.mp (List.find?_isSome.mpr ⟨e, hl, he⟩)
  rw [hx, honly x (List.mem_of_find?_eq_some hx) (List.find?_some hx)]

/-- **Searching finds the entry**, when it is the only one the search looks for, and at every
boundary where it does not stay the pointer of its group is the only one that leads on. -/
theorem seek_pagesFrom {all : List (List (Record α π ℕ))} {bs : List β} {es : List α} {base : ℕ}
    {e : α}
    (hsub : ∀ b ∈ bs, ∀ es, (∀ x ∈ (split b es).1, x ∈ es) ∧
      ∀ g ∈ (split b es).2, ∀ x ∈ g.2, x ∈ es)
    (hleads : ∀ b ∈ bs, ∀ es, e ∈ es → e ∉ (split b es).1 →
      ∃ g, (split b es).2.filter (fun g => leads g.1) = [g] ∧ e ∈ g.2)
    (hmem : e ∈ es) (he : isEntry e = true) (honly : ∀ x ∈ es, isEntry x = true → x = e)
    (h : Located all base (pagesFrom split bs es base)) {fuel : ℕ} (hfuel : bs.length < fuel) :
    seek (fun i => all[i]?) isEntry leads fuel base = some e := by
  induction bs generalizing es base fuel with
  | nil =>
    obtain ⟨fuel, rfl⟩ : ∃ n, fuel = n + 1 := ⟨fuel - 1, by rw [List.length_nil] at hfuel; omega⟩
    have hpage : all[base]? = some (es.map Record.entry) := h 0 Nat.one_pos
    rw [seek, hpage, Option.bind_some, pick, entries_map_entry,
      find?_eq_some_of_only he hmem honly]
    rfl
  | cons b bs ih =>
    rw [List.length_cons] at hfuel
    obtain ⟨fuel, rfl⟩ : ∃ n, fuel = n + 1 := ⟨fuel - 1, by omega⟩
    have hpage : all[base]? = some _ := h 0 (Nat.succ_pos _)
    obtain ⟨hstay, hgroup⟩ := hsub b List.mem_cons_self es
    rw [seek, hpage, Option.bind_some, pick, entries_append, entries_map_entry,
      entries_childPages, List.append_nil, leading_append, leading_map_entry, List.nil_append]
    by_cases hown : e ∈ (split b es).1
    · rw [find?_eq_some_of_only he hown fun x hx => honly x (hstay x hx)]
      rfl
    · have hnone : (split b es).1.find? isEntry = none := by
        rw [List.find?_eq_none]
        intro x hx hxe
        exact hown (honly x (hstay x hx) hxe ▸ hx)
      obtain ⟨g, hunique, hg⟩ := hleads b List.mem_cons_self es hmem hown
      obtain ⟨i, hi, hlocated⟩ :=
        @childPages_leading α π leads (pagesFrom split bs) _ g hunique (base + 1)
      have hgmem : g ∈ (split b es).2.filter fun g => leads g.1 := by
        rw [hunique]
        exact List.mem_singleton_self g
      have hbelow := hgroup g (List.mem_filter.mp hgmem).1
      rw [hnone, hi]
      exact ih (fun b hb => hsub b (List.mem_cons_of_mem _ hb))
        (fun b hb => hleads b (List.mem_cons_of_mem _ hb)) hg
        (fun x hx => honly x (hbelow x hx)) (hlocated all (Located.tail h)) (by omega)

/-! ## Browsing -/

/-- The entries from a page on, without the pages whose pointers are not worth following. -/
def browse (read : γ → Option (List (Record α π γ))) (enter : π → Bool) : ℕ → γ → Option (List α)
  | 0, _ => none
  | fuel + 1, g => (read g).bind fun rs =>
    (collect (browse read enter fuel) (leading enter rs)).map fun l => entries rs ++ l

/-- Results by other names for the pages. -/
lemma collect_map {ε : Type} {next : γ → Option (List ε)} {next' : δ → Option (List ε)} {f : γ → δ}
    (hnext : ∀ g l, next g = some l → next' (f g) = some l) {gs : List γ} {l : List ε}
    (h : collect next gs = some l) : collect next' (gs.map f) = some l := by
  induction gs generalizing l with
  | nil => exact h
  | cons g gs ih =>
    obtain ⟨first, hfirst, hrest⟩ := Option.bind_eq_some_iff.mp h
    obtain ⟨later, hlater, rfl⟩ := Option.map_eq_some_iff.mp hrest
    rw [List.map_cons, collect, hnext g first hfirst, Option.bind_some, ih hlater, Option.map_some]

/-- Browsing by other names for the pages finds the same entries. -/
theorem browse_retarget {read : γ → Option (List (Record α π γ))}
    {read' : δ → Option (List (Record α π δ))} {f : γ → δ}
    (hread : ∀ g rs, read g = some rs → read' (f g) = some (rs.map (Record.retarget f)))
    {enter : π → Bool} {fuel : ℕ} {g : γ} {found : List α}
    (h : browse read enter fuel g = some found) : browse read' enter fuel (f g) = some found := by
  induction fuel generalizing g found with
  | zero => cases h
  | succ fuel ih =>
    obtain ⟨rs, hrs, hrest⟩ := Option.bind_eq_some_iff.mp h
    obtain ⟨below, hbelow, rfl⟩ := Option.map_eq_some_iff.mp hrest
    rw [browse, hread g rs hrs, Option.bind_some, leading_retarget,
      collect_map (fun g l => ih) hbelow, Option.map_some, entries_retarget]

variable {want : α → Bool} {enter : π → Bool}

/-- Groups that are not entered hold no wanted entry. -/
lemma childPages_browse {build : List α → ℕ → List (List (Record α π ℕ))}
    {all : List (List (Record α π ℕ))} {fuel : ℕ} {groups : List (π × List α)}
    (hbrowse : ∀ g ∈ groups, ∀ base, Located all base (build g.2 base) →
      ∃ found, browse (fun i => all[i]?) enter fuel base = some found ∧
        (found.filter want).Perm (g.2.filter want))
    (henter : ∀ g ∈ groups, ∀ e ∈ g.2, want e = true → enter g.1 = true) (base : ℕ)
    (h : Located all base (childPages build groups base).2) :
    ∃ found, collect (browse (fun i => all[i]?) enter fuel)
        (leading enter (childPages build groups base).1) = some found ∧
      (found.filter want).Perm ((groups.flatMap Prod.snd).filter want) := by
  induction groups generalizing base with
  | nil => exact ⟨[], rfl, List.Perm.refl _⟩
  | cons g groups ih =>
    obtain ⟨later, hlater, hperm⟩ := ih (fun g hg => hbrowse g (List.mem_cons_of_mem _ hg))
      (fun g hg => henter g (List.mem_cons_of_mem _ hg)) (base + (build g.2 base).length) h.right
    rw [childPages, leading_pointer, List.flatMap_cons, List.filter_append]
    by_cases hin : enter g.1 = true
    · obtain ⟨first, hfirst, hown⟩ := hbrowse g List.mem_cons_self base h.left
      refine ⟨first ++ later, ?_, ?_⟩
      · rw [if_pos hin, collect, hfirst, Option.bind_some, hlater, Option.map_some]
      · rw [List.filter_append]
        exact hown.append hperm
    · have hnone : g.2.filter want = [] := by
        rw [List.filter_eq_nil_iff]
        exact fun e he hwant => hin (henter g List.mem_cons_self e he hwant)
      refine ⟨later, ?_, ?_⟩
      · rw [if_neg hin]
        exact hlater
      · rwa [hnone, List.nil_append]

/-- **Browsing misses nothing** that is wanted, when the pointer of every group with a wanted entry
is followed.  What is known of the boundaries and entries left may be used to show this. -/
theorem browse_pagesFrom {all : List (List (Record α π ℕ))} {I : List β → List α → Prop}
    (hsplit : ∀ b es, ((split b es).1 ++ (split b es).2.flatMap Prod.snd).Perm es)
    (hgroups : ∀ b bs es, I (b :: bs) es → ∀ g ∈ (split b es).2, I bs g.2 ∧
      ∀ e ∈ g.2, want e = true → enter g.1 = true)
    {bs : List β} {es : List α} {base : ℕ} (hinv : I bs es)
    (h : Located all base (pagesFrom split bs es base)) {fuel : ℕ} (hfuel : bs.length < fuel) :
    ∃ found, browse (fun i => all[i]?) enter fuel base = some found ∧
      (found.filter want).Perm (es.filter want) := by
  induction bs generalizing es base fuel with
  | nil =>
    obtain ⟨fuel, rfl⟩ : ∃ n, fuel = n + 1 := ⟨fuel - 1, by rw [List.length_nil] at hfuel; omega⟩
    have hpage : all[base]? = some (es.map Record.entry) := h 0 Nat.one_pos
    refine ⟨es, ?_, List.Perm.refl _⟩
    rw [browse, hpage, Option.bind_some, leading_map_entry, entries_map_entry]
    exact congrArg some (List.append_nil es)
  | cons b bs ih =>
    rw [List.length_cons] at hfuel
    obtain ⟨fuel, rfl⟩ : ∃ n, fuel = n + 1 := ⟨fuel - 1, by omega⟩
    have hpage : all[base]? = some _ := h 0 (Nat.succ_pos _)
    obtain ⟨later, hlater, hperm⟩ := childPages_browse
      (fun g hg _ hl => ih (hgroups b bs es hinv g hg).1 hl (show bs.length < fuel by omega))
      (fun g hg => (hgroups b bs es hinv g hg).2) (base + 1) (Located.tail h)
    refine ⟨(split b es).1 ++ later, ?_, ?_⟩
    · rw [browse, hpage, Option.bind_some, leading_append, leading_map_entry, List.nil_append,
        hlater, Option.map_some, entries_append, entries_map_entry, entries_childPages,
        List.append_nil]
    · rw [List.filter_append]
      refine (hperm.append_left _).trans ?_
      rw [← List.filter_append]
      exact (hsplit b es).filter _

end PageTree
