import Mathlib

/-!
# Finite maps from keys to lists

A map that collects a list of values under every key, as grouping code builds it.  The maps are
Mathlib's association lists.  A missing key reads as the empty list, which is how code that writes
`map.entry(k).or_default().push(x)` and `map.remove(k).unwrap_or_default()` sees them.

For every operation on a map (adding a value, adding many, taking buckets out, replacing those that
are not empty) there is one lemma about reading afterwards and one about which keys are there.
Grouping a list is the case that the rest rests on: the bucket of a key is the part of the list that
the key is given to, in the order of the list.  A map is tight when no key has an empty bucket; then
the keys that are there are those with values, which is what the loops of the octree build rely on.
-/

/-- A finite map that collects a list of values under every key. -/
abbrev BucketMap (κ α : Type*) := AList fun _ : κ => List α

namespace BucketMap

variable {κ α : Type*} [DecidableEq κ]

/-- The values under a key; none when the key is missing. -/
def get (m : BucketMap κ α) (k : κ) : List α := (m.lookup k).getD []

/-- Add one value at the end of its bucket. -/
def push (m : BucketMap κ α) (k : κ) (x : α) : BucketMap κ α := m.insert k (m.get k ++ [x])

/-- Put every element of a list into the bucket that `f` names. -/
def pushAll (f : α → κ) (m : BucketMap κ α) (l : List α) : BucketMap κ α :=
  l.foldl (fun m x => m.push (f x) x) m

/-- Group the elements of a list by the key that `f` gives them, if it gives them one. -/
def groupBy (f : α → Option κ) (l : List α) : BucketMap κ α :=
  l.foldl (fun m x => match f x with
    | some k => m.push k x
    | none => m) ∅

/-- Remove every key of a list. -/
def eraseAll (m : BucketMap κ α) (l : List κ) : BucketMap κ α := l.foldl (fun m k => m.erase k) m

/-- Take the buckets of a list of keys out of the map, one after the other. -/
def removeEach (m : BucketMap κ α) : List κ → List (List α) × BucketMap κ α
  | [] => ([], m)
  | k :: l =>
    let r := removeEach (m.erase k) l
    (m.get k :: r.1, r.2)

/-- The keys with their buckets. -/
def pairs (m : BucketMap κ α) : List (κ × List α) := m.entries.map fun e => (e.1, e.2)

/-- Replace a bucket unless there is nothing to put into it. -/
def insertNonempty (m : BucketMap κ α) (k : κ) (l : List α) : BucketMap κ α :=
  if l.isEmpty then m else m.insert k l

/-- Replace the buckets of a list of keys, skipping empty replacements. -/
def insertEach (m : BucketMap κ α) (keys : List κ) (vals : List (List α)) : BucketMap κ α :=
  (keys.zip vals).foldl (fun m t => m.insertNonempty t.1 t.2) m

@[simp] lemma get_empty (k : κ) : (∅ : BucketMap κ α).get k = [] := by
  simp [get]

@[simp] lemma get_insert_self (m : BucketMap κ α) (k : κ) (l : List α) :
    BucketMap.get (m.insert k l) k = l := by
  simp [get]

lemma get_insert_of_ne {m : BucketMap κ α} {k j : κ} {l : List α} (h : j ≠ k) :
    BucketMap.get (m.insert k l) j = m.get j := by
  simp [get, AList.lookup_insert_ne h]

lemma get_insert (m : BucketMap κ α) (k j : κ) (l : List α) :
    BucketMap.get (m.insert k l) j = if j = k then l else m.get j := by
  split_ifs with h
  · rw [h, get_insert_self]
  · exact get_insert_of_ne h

lemma get_erase (m : BucketMap κ α) (k j : κ) :
    BucketMap.get (m.erase k) j = if j = k then [] else m.get j := by
  split_ifs with h
  · rw [h, get, AList.lookup_erase, Option.getD_none]
  · rw [get, AList.lookup_erase_ne h, get]

/-- A key that is missing has an empty bucket. -/
lemma get_eq_nil_of_notMem {m : BucketMap κ α} {k : κ} (h : k ∉ m) : m.get k = [] := by
  rw [get, AList.lookup_eq_none.mpr h, Option.getD_none]

lemma mem_of_get_ne_nil {m : BucketMap κ α} {k : κ} (h : m.get k ≠ []) : k ∈ m := by
  by_contra hk
  exact h (get_eq_nil_of_notMem hk)

/-! ## Pushing -/

lemma get_push (m : BucketMap κ α) (k j : κ) (x : α) :
    (m.push k x).get j = if j = k then m.get j ++ [x] else m.get j := by
  rw [push, get_insert]
  split_ifs with h
  · rw [h]
  · rfl

lemma mem_push {m : BucketMap κ α} {k j : κ} {x : α} : j ∈ m.push k x ↔ j = k ∨ j ∈ m := by
  rw [push, AList.mem_insert]

/-- Every bucket grows by the elements of the list that belong to it, in their order. -/
lemma get_pushAll (f : α → κ) (m : BucketMap κ α) (l : List α) (k : κ) :
    (m.pushAll f l).get k = m.get k ++ l.filter (fun x => f x = k) := by
  induction l generalizing m with
  | nil => simp [pushAll]
  | cons x l ih =>
    rw [pushAll, List.foldl_cons, ← pushAll, ih, get_push, List.filter_cons]
    by_cases h : f x = k
    · simp [h]
    · simp [h, Ne.symm h]

lemma mem_pushAll {f : α → κ} {m : BucketMap κ α} {l : List α} {k : κ} :
    k ∈ m.pushAll f l ↔ k ∈ m ∨ ∃ x ∈ l, f x = k := by
  induction l generalizing m with
  | nil => simp [pushAll]
  | cons x l ih =>
    rw [pushAll, List.foldl_cons, ← pushAll, ih, mem_push]
    simp only [List.exists_mem_cons_iff, eq_comm (a := k)]
    tauto

/-! ## Grouping -/

/-- A group is the part of the list that has its key, in the order of the list. -/
lemma get_groupBy (f : α → Option κ) (l : List α) (k : κ) :
    (groupBy f l).get k = l.filter fun x => f x = some k := by
  have hfold : ∀ m : BucketMap κ α, BucketMap.get (l.foldl (fun m x => match f x with
      | some k => m.push k x
      | none => m) m) k = m.get k ++ l.filter fun x => f x = some k := by
    induction l with
    | nil => simp
    | cons x l ih =>
      intro m
      rw [List.foldl_cons, ih, List.filter_cons]
      cases hp : f x with
      | none => simp
      | some j =>
        simp only [get_push, Option.some.injEq, decide_eq_true_eq]
        by_cases hkj : k = j
        · simp [hkj]
        · simp [hkj, Ne.symm hkj]
  have := hfold ∅
  rwa [get_empty, List.nil_append] at this

/-- There are only keys of elements. -/
lemma mem_groupBy {f : α → Option κ} {l : List α} {k : κ} (h : k ∈ groupBy f l) :
    ∃ x ∈ l, f x = some k := by
  have hfold : ∀ m : BucketMap κ α, k ∈ l.foldl (fun m x => match f x with
      | some k => m.push k x
      | none => m) m → k ∈ m ∨ ∃ x ∈ l, f x = some k := by
    clear h
    induction l with
    | nil => exact fun m hm => Or.inl hm
    | cons x l ih =>
      intro m hm
      rw [List.foldl_cons] at hm
      rcases ih _ hm with hm | ⟨y, hy, hp⟩
      · cases hp : f x with
        | none =>
          rw [hp] at hm
          exact Or.inl hm
        | some j =>
          rw [hp] at hm
          rcases mem_push.mp hm with rfl | hm
          · exact Or.inr ⟨x, List.mem_cons_self, hp⟩
          · exact Or.inl hm
      · exact Or.inr ⟨y, List.mem_cons_of_mem _ hy, hp⟩
  exact (hfold ∅ h).resolve_left (AList.notMem_empty k)

/-- Grouping by keys that agree on the list. -/
lemma groupBy_congr {f g : α → Option κ} {l : List α} (h : ∀ x ∈ l, f x = g x) :
    groupBy f l = groupBy g l :=
  List.foldl_ext _ _ _ fun m x hx => by rw [h x hx]

/-! ## Removing and replacing -/

lemma get_eraseAll (m : BucketMap κ α) (l : List κ) (k : κ) :
    (m.eraseAll l).get k = if k ∈ l then [] else m.get k := by
  induction l generalizing m with
  | nil => simp [eraseAll]
  | cons a l ih =>
    rw [eraseAll, List.foldl_cons, ← eraseAll, ih, get_erase]
    by_cases hl : k ∈ l
    · simp [hl]
    · by_cases ha : k = a
      · simp [ha]
      · simp [hl, ha]

lemma mem_eraseAll {m : BucketMap κ α} {l : List κ} {k : κ} :
    k ∈ m.eraseAll l ↔ k ∈ m ∧ k ∉ l := by
  induction l generalizing m with
  | nil => simp [eraseAll]
  | cons a l ih =>
    rw [eraseAll, List.foldl_cons, ← eraseAll, ih, AList.mem_erase, List.mem_cons]
    tauto

lemma get_insertNonempty (m : BucketMap κ α) (k j : κ) (l : List α) :
    (m.insertNonempty k l).get j = if j = k ∧ l ≠ [] then l else m.get j := by
  rw [insertNonempty]
  rcases l with _ | ⟨x, l⟩
  · simp
  · simp [get_insert]

lemma mem_insertNonempty {m : BucketMap κ α} {k j : κ} {l : List α} :
    j ∈ m.insertNonempty k l ↔ (j = k ∧ l ≠ []) ∨ j ∈ m := by
  rw [insertNonempty]
  rcases l with _ | ⟨x, l⟩
  · simp
  · simp [AList.mem_insert]

lemma get_insertEach_of_notMem {keys : List κ} {k : κ} (h : k ∉ keys) (m : BucketMap κ α)
    (vals : List (List α)) : (m.insertEach keys vals).get k = m.get k := by
  induction keys generalizing m vals with
  | nil => rfl
  | cons a keys ih =>
    cases vals with
    | nil => rfl
    | cons v vals =>
      obtain ⟨ha, hk⟩ := not_or.mp (mt List.mem_cons.mpr h)
      have hrest := ih hk (m.insertNonempty a v) vals
      rwa [get_insertNonempty, if_neg fun hc => ha hc.1] at hrest

/-- What a replacement leaves under a key depends only on what was there. -/
lemma get_insertEach_congr {m m' : BucketMap κ α} {k : κ} (h : m.get k = m'.get k) (keys : List κ)
    (vals : List (List α)) : (m.insertEach keys vals).get k = (m'.insertEach keys vals).get k := by
  unfold insertEach
  induction keys.zip vals generalizing m m' with
  | nil => exact h
  | cons t l ih =>
    apply ih
    rw [get_insertNonempty, get_insertNonempty, h]

/-- Replacing empty buckets stores the replacements. -/
lemma map_get_insertEach {m : BucketMap κ α} {keys : List κ} {vals : List (List α)}
    (hnodup : keys.Nodup) (hlen : vals.length = keys.length) (h : ∀ k ∈ keys, m.get k = []) :
    keys.map (m.insertEach keys vals).get = vals := by
  induction keys generalizing m vals with
  | nil => exact (List.eq_nil_of_length_eq_zero hlen).symm
  | cons a keys ih =>
    obtain ⟨ha, hk⟩ := List.nodup_cons.mp hnodup
    obtain ⟨v, vals, rfl⟩ := List.exists_cons_of_length_eq_add_one hlen
    have hrest : ∀ k ∈ keys, (m.insertNonempty a v).get k = [] := fun k hk' => by
      have hne : k ≠ a := fun he => ha (he ▸ hk')
      rw [get_insertNonempty, if_neg fun hc => hne hc.1, h k (List.mem_cons_of_mem _ hk')]
    have hself : ((m.insertNonempty a v).insertEach keys vals).get a = v := by
      rw [get_insertEach_of_notMem ha, get_insertNonempty, h a List.mem_cons_self]
      split_ifs with hc
      · rfl
      · by_contra hne
        exact hc ⟨rfl, Ne.symm hne⟩
    change ((m.insertNonempty a v).insertEach keys vals).get a ::
      keys.map ((m.insertNonempty a v).insertEach keys vals).get = v :: vals
    rw [hself, ih hk (by simpa using hlen) hrest]

lemma mem_insertEach {m : BucketMap κ α} {keys : List κ} {vals : List (List α)} {k : κ}
    (h : k ∈ m.insertEach keys vals) : k ∈ m ∨ k ∈ keys := by
  have hzip : k ∈ m ∨ ∃ t ∈ keys.zip vals, k = t.1 := by
    change k ∈ (keys.zip vals).foldl (fun m t => m.insertNonempty t.1 t.2) m at h
    revert h
    induction keys.zip vals generalizing m with
    | nil => exact fun h => Or.inl h
    | cons t l ih =>
      intro h
      rcases ih h with hm | ⟨u, hu, he⟩
      · rcases mem_insertNonempty.mp hm with ⟨he, -⟩ | hm
        · exact Or.inr ⟨t, List.mem_cons_self, he⟩
        · exact Or.inl hm
      · exact Or.inr ⟨u, List.mem_cons_of_mem _ hu, he⟩
  rcases hzip with hm | ⟨t, ht, rfl⟩
  · exact Or.inl hm
  · exact Or.inr (List.of_mem_zip ht).1

/-- Taking out the buckets of different keys. -/
lemma removeEach_eq (m : BucketMap κ α) {l : List κ} (h : l.Nodup) :
    m.removeEach l = (l.map m.get, m.eraseAll l) := by
  induction l generalizing m with
  | nil => rfl
  | cons k l ih =>
    obtain ⟨hk, hl⟩ := List.nodup_cons.mp h
    have herase : m.eraseAll (k :: l) = BucketMap.eraseAll (m.erase k) l := rfl
    rw [removeEach, ih _ hl, List.map_cons, herase]
    simp only [Prod.mk.injEq, List.cons.injEq, true_and, and_true]
    refine List.map_congr_left fun j hj => ?_
    have hne : j ≠ k := fun he => hk (he ▸ hj)
    rw [get_erase, if_neg hne]

omit [DecidableEq κ] in
lemma map_fst_pairs (m : BucketMap κ α) : m.pairs.map Prod.fst = m.keys := by
  simp [pairs, AList.keys, List.keys, Function.comp_def]

lemma mem_pairs {m : BucketMap κ α} {k : κ} {l : List α} :
    (k, l) ∈ m.pairs ↔ k ∈ m ∧ m.get k = l := by
  have hentry : (k, l) ∈ m.pairs ↔ l ∈ m.lookup k := by
    rw [AList.mem_lookup_iff, pairs, List.mem_map]
    constructor
    · rintro ⟨⟨k', l'⟩, hmem, he⟩
      cases he
      exact hmem
    · intro hmem
      exact ⟨⟨k, l⟩, hmem, rfl⟩
  rw [hentry]
  constructor
  · intro hl
    refine ⟨?_, ?_⟩
    · rw [← AList.lookup_isSome, Option.mem_def.mp hl]
      rfl
    · rw [get, Option.mem_def.mp hl, Option.getD_some]
  · rintro ⟨hk, rfl⟩
    obtain ⟨l, hl⟩ := Option.isSome_iff_exists.mp (AList.lookup_isSome.mpr hk)
    rw [Option.mem_def, get, hl, Option.getD_some]

/-! ## Tight maps -/

/-- No key has an empty bucket. -/
def Tight (m : BucketMap κ α) : Prop := ∀ k ∈ m, m.get k ≠ []

lemma Tight.mem_iff {m : BucketMap κ α} (h : m.Tight) {k : κ} : k ∈ m ↔ m.get k ≠ [] :=
  ⟨h k, mem_of_get_ne_nil⟩

lemma Tight.empty : (∅ : BucketMap κ α).Tight := fun k hk => absurd hk (AList.notMem_empty k)

lemma Tight.pushAll {m : BucketMap κ α} (h : m.Tight) (f : α → κ) (l : List α) :
    (m.pushAll f l).Tight := by
  intro k hk
  rw [get_pushAll]
  rcases mem_pushAll.mp hk with hm | ⟨x, hx, hf⟩
  · simp [h k hm]
  · intro hnil
    have hmem : x ∈ l.filter fun x => f x = k := List.mem_filter.mpr ⟨hx, by simpa using hf⟩
    rw [(List.append_eq_nil_iff.mp hnil).2] at hmem
    cases hmem

lemma Tight.eraseAll {m : BucketMap κ α} (h : m.Tight) (l : List κ) : (m.eraseAll l).Tight := by
  intro k hk
  obtain ⟨hm, hl⟩ := mem_eraseAll.mp hk
  rw [get_eraseAll, if_neg hl]
  exact h k hm

lemma Tight.erase {m : BucketMap κ α} (h : m.Tight) (k : κ) : BucketMap.Tight (m.erase k) :=
  h.eraseAll [k]

lemma Tight.insertNonempty {m : BucketMap κ α} (h : m.Tight) (k : κ) (l : List α) :
    (m.insertNonempty k l).Tight := by
  intro j hj
  rw [get_insertNonempty]
  split_ifs with hc
  · exact hc.2
  · rcases mem_insertNonempty.mp hj with hk | hm
    · exact absurd hk hc
    · exact h j hm

lemma Tight.insertEach {m : BucketMap κ α} (h : m.Tight) (keys : List κ) (vals : List (List α)) :
    (m.insertEach keys vals).Tight := by
  unfold BucketMap.insertEach
  induction keys.zip vals generalizing m with
  | nil => exact h
  | cons t l ih => exact ih (h.insertNonempty t.1 t.2)

end BucketMap
