import Mathlib

/-!
# Lists

What several parts of a development need of lists and what the library states for other cases.
Sorting by a decidable relation puts a list in order when the relation is total and transitive on
the elements of the list, not necessarily everywhere; and a list in strict order is what each of its
rearrangements is sorted to.

The other lemmas are about loops that may fail.  A `mapM` that succeeds relates inputs and outputs
one by one; it succeeds when every step does, also up to a rearrangement of the results.  Relations
that hold element by element can be chained, and every element on one side has a partner on the
other one.  Finitely many numbers, one for every element, have a common bound.  At the end, a sum
over the elements with a certain number, over all numbers, is the sum over all elements.
-/

namespace Lists

variable {α β γ : Type}

/-! ## Sorting -/

/-- Sorting by a total and transitive relation puts a list in order. -/
lemma pairwise_mergeSort_by (r : α → α → Prop) [DecidableRel r]
    (htrans : ∀ a b c, r a b → r b c → r a c) (htotal : ∀ a b, r a b ∨ r b a) (l : List α) :
    (l.mergeSort fun a b => decide (r a b)).Pairwise r := by
  have hsorted : (l.mergeSort fun a b => decide (r a b)).Pairwise fun a b =>
      decide (r a b) = true := by
    apply List.pairwise_mergeSort
    · intro a b c hab hbc
      exact decide_eq_true (htrans a b c (of_decide_eq_true hab) (of_decide_eq_true hbc))
    · intro a b
      rw [Bool.or_eq_true, decide_eq_true_eq, decide_eq_true_eq]
      exact htotal a b
  exact hsorted.imp of_decide_eq_true

/-- Sorting by a relation that is total and transitive on the elements puts them in order. -/
lemma pairwise_mergeSort_of_mem {r : α → α → Bool} {l : List α}
    (htrans : ∀ a ∈ l, ∀ b ∈ l, ∀ c ∈ l, r a b = true → r b c = true → r a c = true)
    (htotal : ∀ a ∈ l, ∀ b ∈ l, (r a b || r b a) = true) :
    (l.mergeSort r).Pairwise fun a b => r a b = true := by
  have hmap := List.map_mergeSort (r := fun a b : {x // x ∈ l} => r a.1 b.1) (s := r)
    (f := Subtype.val) (l := l.attach) fun _ _ _ _ => rfl
  rw [List.attach_map_subtype_val] at hmap
  rw [← hmap, List.pairwise_map]
  exact List.pairwise_mergeSort (fun a b c => htrans a.1 a.2 b.1 b.2 c.1 c.2)
    (fun a b => htotal a.1 a.2 b.1 b.2) l.attach

/-- A list in strict order is what its rearrangements are sorted to. -/
lemma mergeSort_eq_of_perm {f : α → β} [LinearOrder β] {l sorted : List α} (hperm : sorted.Perm l)
    (hsorted : sorted.Pairwise fun a b => f a < f b) :
    (l.mergeSort fun a b => decide (f a ≤ f b)) = sorted := by
  have hstrict : ∀ a ∈ sorted, ∀ b ∈ sorted, f a ≤ f b → f b ≤ f a → a = b := by
    have hinj : (sorted.map f).Nodup := List.pairwise_map.mpr (hsorted.imp ne_of_lt)
    exact fun a ha b hb hab hba => List.inj_on_of_nodup_map hinj ha hb (le_antisymm hab hba)
  have hpair := pairwise_mergeSort_by (fun a b => f a ≤ f b) (fun _ _ _ => le_trans)
    (fun _ _ => le_total _ _) l
  have hmem : ∀ {a}, a ∈ l.mergeSort (fun a b => decide (f a ≤ f b)) → a ∈ sorted := fun ha =>
    hperm.mem_iff.mpr (List.mem_mergeSort.mp ha)
  exact ((List.mergeSort_perm l _).trans hperm.symm).eq_of_pairwise
    (fun a b ha hb => hstrict a (hmem ha) b hb) hpair (hsorted.imp le_of_lt)

/-- Sorting by two comparisons that agree on the elements. -/
lemma mergeSort_congr {r s : α → α → Bool} {l : List α} (h : ∀ a ∈ l, ∀ b ∈ l, r a b = s a b) :
    l.mergeSort r = l.mergeSort s := by
  have hmap := List.map_mergeSort (f := id) h
  rwa [List.map_id, List.map_id] at hmap

/-- Numbered maps that agree on the elements. -/
lemma mapIdx_congr {f g : ℕ → α → β} {l : List α} (h : ∀ i a, l[i]? = some a → f i a = g i a) :
    l.mapIdx f = l.mapIdx g := by
  refine List.ext_getElem? fun i => ?_
  rw [List.getElem?_mapIdx, List.getElem?_mapIdx]
  cases hi : l[i]? with
  | none => rfl
  | some a => exact congrArg some (h i a hi)

/-- Mapping all elements but one to the same value. -/
lemma mapIdx_eq_single {f : ℕ → α → β} {x : β} (pre post : List α) (a : α)
    (h : ∀ j c, j ≠ pre.length → f j c = x) : (pre ++ a :: post).mapIdx f =
      List.replicate pre.length x ++ f pre.length a :: List.replicate post.length x := by
  rw [List.mapIdx_append, List.mapIdx_cons, Nat.zero_add]
  congr 1
  · refine List.eq_replicate_iff.mpr ⟨List.length_mapIdx, fun t ht => ?_⟩
    obtain ⟨j, hj, rfl⟩ := List.mem_mapIdx.mp ht
    exact h j _ hj.ne
  · congr 1
    refine List.eq_replicate_iff.mpr ⟨List.length_mapIdx, fun t ht => ?_⟩
    obtain ⟨j, hj, rfl⟩ := List.mem_mapIdx.mp ht
    exact h _ _ (by omega)

/-! ## Maps that may fail -/

/-- The results belong to the elements, one by one. -/
lemma forall₂_of_mapM {f : α → Option β} {l : List α} {results : List β}
    (h : l.mapM f = some results) : List.Forall₂ (fun a r => f a = some r) l results := by
  induction l generalizing results with
  | nil =>
    obtain rfl := Option.some.inj h
    exact List.Forall₂.nil
  | cons a l ih =>
    rw [List.mapM_cons] at h
    obtain ⟨r, hr, htail⟩ := Option.bind_eq_some_iff.mp h
    obtain ⟨rest, hrest, hcons⟩ := Option.bind_eq_some_iff.mp htail
    obtain rfl := Option.some.inj hcons
    exact List.Forall₂.cons hr (ih hrest)

/-- Every result comes from some element. -/
lemma exists_of_mem_mapM {f : α → Option β} {l : List α} {results : List β}
    (h : l.mapM f = some results) {r : β} (hr : r ∈ results) : ∃ a ∈ l, f a = some r := by
  have hall := forall₂_of_mapM h
  clear h
  induction hall with
  | nil => cases hr
  | cons ha _ ih =>
    rcases List.mem_cons.mp hr with rfl | hr
    · exact ⟨_, List.mem_cons_self, ha⟩
    · obtain ⟨a, hmem, ha⟩ := ih hr
      exact ⟨a, List.mem_cons_of_mem _ hmem, ha⟩

/-- A map that never fails. -/
lemma exists_mapM {f : α → Option β} {l : List α} (h : ∀ a ∈ l, ∃ r, f a = some r) :
    ∃ results, l.mapM f = some results := by
  induction l with
  | nil => exact ⟨[], rfl⟩
  | cons a l ih =>
    obtain ⟨r, hr⟩ := h a List.mem_cons_self
    obtain ⟨results, hresults⟩ := ih fun a' ha' => h a' (List.mem_cons_of_mem _ ha')
    exact ⟨r :: results, by rw [List.mapM_cons, hr, hresults]; rfl⟩

/-- A map that never fails, to lists that are known up to their order. -/
lemma exists_mapM_perm {f : α → Option (List β)} {g : α → List β} {l : List α}
    (h : ∀ a ∈ l, ∃ r, f a = some r ∧ r.Perm (g a)) :
    ∃ results, l.mapM f = some results ∧ results.flatten.Perm (l.flatMap g) := by
  induction l with
  | nil => exact ⟨[], rfl, List.Perm.refl _⟩
  | cons a l ih =>
    obtain ⟨r, hr, hperm⟩ := h a List.mem_cons_self
    obtain ⟨results, hresults, hrest⟩ := ih fun a' ha' => h a' (List.mem_cons_of_mem _ ha')
    exact ⟨r :: results, by rw [List.mapM_cons, hr, hresults]; rfl, hperm.append hrest⟩

/-- What holds of every element from some number on holds of all of them from one number on. -/
lemma exists_forall_le {P : α → ℕ → Prop} {l : List α} (h : ∀ a ∈ l, ∃ n, ∀ m, n ≤ m → P a m) :
    ∃ n, ∀ m, n ≤ m → ∀ a ∈ l, P a m := by
  induction l with
  | nil => exact ⟨0, fun m _ a ha => by cases ha⟩
  | cons a l ih =>
    obtain ⟨n, hn⟩ := h a List.mem_cons_self
    obtain ⟨n', hn'⟩ := ih fun a' ha' => h a' (List.mem_cons_of_mem _ ha')
    refine ⟨max n n', fun m hm a' ha' => ?_⟩
    rcases List.mem_cons.mp ha' with rfl | ha'
    · exact hn m ((le_max_left _ _).trans hm)
    · exact hn' m ((le_max_right _ _).trans hm) a' ha'

/-! ## Element-wise relations -/

/-- Chaining element-wise relations. -/
lemma forall₂_chain {R : α → β → Prop} {S : β → γ → Prop} {T : α → γ → Prop}
    (hchain : ∀ a x y, R a x → S x y → T a y) {l : List α} {m : List β} {n : List γ}
    (h : List.Forall₂ R l m) (h' : List.Forall₂ S m n) : List.Forall₂ T l n := by
  induction h generalizing n with
  | nil =>
    obtain rfl := List.forall₂_nil_left_iff.mp h'
    exact List.Forall₂.nil
  | cons hR _ ih =>
    obtain ⟨y, n, hS, hrest, rfl⟩ := List.forall₂_cons_left_iff.mp h'
    exact List.Forall₂.cons (hchain _ _ _ hR hS) (ih hrest)

/-- An element on the right has a partner. -/
lemma exists_of_forall₂_right {R : α → β → Prop} {l : List α} {m : List β}
    (h : List.Forall₂ R l m) {b : β} (hb : b ∈ m) : ∃ a ∈ l, R a b := by
  induction h with
  | nil => cases hb
  | cons hR _ ih =>
    rcases List.mem_cons.mp hb with rfl | hb
    · exact ⟨_, List.mem_cons_self, hR⟩
    · obtain ⟨a, ha, hab⟩ := ih hb
      exact ⟨a, List.mem_cons_of_mem _ ha, hab⟩

/-- An element on the left has one partner for two relations. -/
lemma exists_of_forall₂_left {R S : α → β → Prop} {l : List α} {m : List β}
    (h : List.Forall₂ R l m) (h' : List.Forall₂ S l m) {a : α} (ha : a ∈ l) :
    ∃ b ∈ m, R a b ∧ S a b := by
  induction h with
  | nil => cases ha
  | cons hR _ ih =>
    obtain ⟨hS, hrest⟩ := List.forall₂_cons.mp h'
    rcases List.mem_cons.mp ha with rfl | ha
    · exact ⟨_, List.mem_cons_self, hR, hS⟩
    · obtain ⟨b, hb, hab⟩ := ih hrest ha
      exact ⟨b, List.mem_cons_of_mem _ hb, hab⟩

/-! ## Separators -/

/-- The pieces before a separator that occurs in neither are determined by the whole. -/
lemma append_cons_inj {sep : α} {s t s' t' : List α} (hs : sep ∉ s) (hs' : sep ∉ s')
    (h : s ++ sep :: t = s' ++ sep :: t') : s = s' ∧ t = t' := by
  induction s generalizing s' with
  | nil =>
    obtain _ | ⟨c, s'⟩ := s'
    · simpa using h
    · rw [List.nil_append, List.cons_append, List.cons.injEq] at h
      exact absurd (h.1 ▸ List.mem_cons_self) hs'
  | cons b s ih =>
    obtain _ | ⟨c, s'⟩ := s'
    · rw [List.nil_append, List.cons_append, List.cons.injEq] at h
      exact absurd (h.1 ▸ List.mem_cons_self) hs
    · rw [List.cons_append, List.cons_append, List.cons.injEq] at h
      obtain ⟨rfl, h⟩ := h
      obtain ⟨rfl, ht⟩ := ih (List.not_mem_of_not_mem_cons hs) (List.not_mem_of_not_mem_cons hs') h
      exact ⟨rfl, ht⟩

/-! ## Sums -/

/-- Counting by a number counts every element once. -/
lemma sum_countP {l : List α} {f : α → ℕ} {n : ℕ} (h : ∀ a ∈ l, f a < n) :
    ∑ i ∈ Finset.range n, (l.countP fun a => f a = i) = l.length := by
  have hcount : ∀ i, (l.countP fun a => f a = i) = Multiset.count i (l.map f : Multiset ℕ) := by
    intro i
    rw [Multiset.coe_count, List.count, List.countP_map]
    refine List.countP_congr fun a _ => ?_
    simp
  have hmem : ∀ i ∈ (l.map f : Multiset ℕ), i ∈ Finset.range n := by
    intro i hi
    obtain ⟨a, ha, rfl⟩ := List.mem_map.mp (Multiset.mem_coe.mp hi)
    exact Finset.mem_range.mpr (h a ha)
  simp only [hcount]
  rw [Multiset.sum_count_eq_card hmem, Multiset.coe_card, List.length_map]

end Lists
