import CopcConverter.Writer.EncodeNodes
import CopcConverter.Writer.Temporal

/-!
# Time ranges in the temporal index

A reader that looks for a range of GPS times skips a node whose first and last samples are outside
of it, and a page whose pointer says that its subtree is.  The samples of a node are in order and
start and end with the extreme times of its points.  The range of a pointer contains all times at
or below its key.  It is computed from the largest and the smallest finite number on, so that its
ends are times of points unless all of these are infinite, and of one sign.
-/

namespace CopcConverter

open LevelTree PageTree PageBytes

/-! ## What is written -/

/-- A sampling stride: `validate` refuses zero. -/
structure TemporalStride where
  value : UInt32
  pos : 0 < value

/-- The entries of the temporal index of the nodes. -/
def temporalEntries (o : IterOrder) (stride : TemporalStride) (store : Store)
    (nodeKeys : List (VoxelKey × ℕ)) : List TemporalIndexEntry :=
  (encodeNodes o stride.value.toNat store nodeKeys).map fun r => ⟨r.1, r.2.samples⟩

/-- The temporal index of the nodes. -/
def writeTemporalIndex (o : IterOrder) (stride : TemporalStride) (store : Store)
    (nodeKeys : List (VoxelKey × ℕ)) (evlrDataStart : UInt64) : Option (List UInt8) :=
  buildTemporalPayload (temporalEntries o stride store nodeKeys) stride.value evlrDataStart

/-! ## What is said about times -/

/-- The times of the points of a node. -/
def nodeTimes (store : Store) (k : VoxelKey) : Set ℤ := {x | ∃ p ∈ store k, (timeOf p).key = x}

/-- The times of the points at or below a key. -/
def timesBelow (store : Store) (nodeKeys : List (VoxelKey × ℕ)) (k : VoxelKey) : Set ℤ :=
  {x | ∃ e ∈ nodeKeys, IsAncestor k e.1 ∧ x ∈ nodeTimes store e.1}

/-- The samples are in order and start and end with the first and the last time. -/
structure SamplesSound (times : Set ℤ) (samples : List F64) : Prop where
  sorted : samples.Pairwise fun a b => a.key ≤ b.key
  first : ∃ a, samples.head? = some a ∧ IsLeast times a.key
  last : ∃ a, samples.getLast? = some a ∧ IsGreatest times a.key

/-- The range of a pointer contains all times at or below its key, and both ends are such times. -/
def RangeSound (store : Store) (nodeKeys : List (VoxelKey × ℕ)) (t : SubtreeTimes) : Prop :=
  IsLeast (timesBelow store nodeKeys t.key) t.timeMin.key ∧
    IsGreatest (timesBelow store nodeKeys t.key) t.timeMax.key

/-- The times of the points of a node that are not NaN are those of its samples. -/
lemma samplesSound_encodeNode {o : IterOrder} {stride : ℕ} {store : Store} {k : VoxelKey}
    (hne : store k ≠ []) (hnan : ∀ p ∈ store k, (timeOf p).isNaN = false) :
    SamplesSound (nodeTimes store k) (encodeNode o stride (store k)).samples ∧
      ∀ a ∈ (encodeNode o stride (store k)).samples, a.isNaN = false := by
  have hsub : (encodeNode o stride (store k)).samples.Sublist
      ((sortedByTime o (store k)).map timeOf) := samplesOf_sublist _ _
  have hsorted := sortedByTime_pairwise (o := o) hnan
  have htimes : ((sortedByTime o (store k)).map timeOf).Pairwise fun a b => a.key ≤ b.key :=
    List.pairwise_map.mpr hsorted
  have hsortedne : sortedByTime o (store k) ≠ [] := by
    obtain ⟨p, hp⟩ := List.exists_mem_of_ne_nil _ hne
    exact List.ne_nil_of_mem (mem_sortedByTime.mpr hp)
  refine ⟨⟨htimes.sublist hsub, ?_, ?_⟩, fun a ha => ?_⟩
  · obtain ⟨p, pts, hpts⟩ := List.exists_cons_of_ne_nil hsortedne
    have hp : p ∈ store k := mem_sortedByTime.mp (hpts ▸ List.mem_cons_self)
    refine ⟨timeOf p, ?_, ⟨p, hp, rfl⟩, ?_⟩
    · change (samplesOf stride (sortedByTime o (store k))).head? = _
      rw [hpts, head?_samplesOf]
    · rintro x ⟨q, hq, rfl⟩
      rw [← mem_sortedByTime (o := o), hpts] at hq
      rcases List.mem_cons.mp hq with rfl | hq
      · exact le_rfl
      · rw [hpts] at hsorted
        exact List.rel_of_pairwise_cons hsorted hq
  · obtain ⟨pts, p, hpts⟩ := (List.eq_nil_or_concat' _).resolve_left hsortedne
    have hp : p ∈ store k := mem_sortedByTime.mp (hpts ▸ List.mem_concat_self)
    refine ⟨timeOf p, ?_, ⟨p, hp, rfl⟩, ?_⟩
    · change (samplesOf stride (sortedByTime o (store k))).getLast? = _
      rw [hpts, getLast?_samplesOf]
    · rintro x ⟨q, hq, rfl⟩
      rw [← mem_sortedByTime (o := o), hpts] at hq
      rw [hpts] at hsorted
      rcases List.mem_append.mp hq with hq | hq
      · exact (List.pairwise_append.mp hsorted).2.2 q hq p (List.mem_singleton_self p)
      · rw [List.mem_singleton.mp hq]
  · obtain ⟨p, hp, rfl⟩ := List.mem_map.mp (hsub.subset ha)
    exact hnan p (mem_sortedByTime.mp hp)

/-! ## The range of some entries -/

/-- A range that starts from the largest and the smallest finite number and takes some times in. -/
structure Clamped (times : Set ℤ) (t : F64 × F64) : Prop where
  min_number : t.1.isNaN = false
  max_number : t.2.isNaN = false
  least : IsLeast (insert F64.maxValue.key times) t.1.key
  greatest : IsGreatest (insert F64.minValue.key times) t.2.key

namespace Clamped

/-- Nothing is taken in yet. -/
lemma empty : Clamped ∅ (F64.maxValue, F64.minValue) where
  min_number := by decide
  max_number := by decide
  least := by rw [insert_empty_eq]; exact isLeast_singleton
  greatest := by rw [insert_empty_eq]; exact isGreatest_singleton

/-- Take in times with known first and last ones. -/
lemma add {S T : Set ℤ} {t : F64 × F64} {first last : F64} (h : Clamped S t)
    (hfirst : first.isNaN = false) (hlast : last.isNaN = false) (hleast : IsLeast T first.key)
    (hgreatest : IsGreatest T last.key) :
    Clamped (S ∪ T) (F64.min t.1 first, F64.max t.2 last) := by
  obtain ⟨hmin, hminKey⟩ := F64.key_min h.min_number hfirst
  obtain ⟨hmax, hmaxKey⟩ := F64.key_max h.max_number hlast
  refine ⟨hmin, hmax, ?_, ?_⟩
  · rw [hminKey, ← Set.insert_union]
    exact h.least.union hleast
  · rw [hmaxKey, ← Set.insert_union]
    exact h.greatest.union hgreatest

/-- Take in what another range has taken in. -/
lemma union {S T : Set ℤ} {t u : F64 × F64} (h : Clamped S t) (h' : Clamped T u) :
    Clamped (S ∪ T) (F64.min t.1 u.1, F64.max t.2 u.2) := by
  obtain ⟨hmin, hminKey⟩ := F64.key_min h.min_number h'.min_number
  obtain ⟨hmax, hmaxKey⟩ := F64.key_max h.max_number h'.max_number
  refine ⟨hmin, hmax, ?_, ?_⟩
  · have hleast := h.least.union h'.least
    rwa [← Set.insert_union_distrib, ← hminKey] at hleast
  · have hgreatest := h.greatest.union h'.greatest
    rwa [← Set.insert_union_distrib, ← hmaxKey] at hgreatest

end Clamped

/-- An entry is the one of a node whose times are numbers. -/
def EntrySound (store : Store) (e : TemporalIndexEntry) : Prop :=
  SamplesSound (nodeTimes store e.key) e.samples ∧ ∀ a ∈ e.samples, a.isNaN = false

/-- The times of the nodes of some entries. -/
def entryTimes (store : Store) (es : List TemporalIndexEntry) : Set ℤ :=
  {x | ∃ e ∈ es, x ∈ nodeTimes store e.key}

lemma entryTimes_concat (store : Store) (es : List TemporalIndexEntry) (e : TemporalIndexEntry) :
    entryTimes store (es ++ [e]) = entryTimes store es ∪ nodeTimes store e.key := by
  ext x
  simp [entryTimes, or_and_right, exists_or]

/-- The range of some entries takes in all times of their nodes. -/
lemma clamped_timeRangeOf {store : Store} {es : List TemporalIndexEntry}
    (hes : ∀ e ∈ es, EntrySound store e) : Clamped (entryTimes store es) (timeRangeOf es) := by
  induction es using List.reverseRecOn with
  | nil =>
    have hnone : entryTimes store [] = ∅ := by simp [entryTimes]
    rw [hnone]
    exact Clamped.empty
  | append_singleton es e ih =>
    have ht := ih fun e he => hes e (List.mem_append_left _ he)
    obtain ⟨hsound, hnan⟩ := hes e (List.mem_append_right _ (List.mem_singleton_self e))
    obtain ⟨first, hfirst, hleast⟩ := hsound.first
    obtain ⟨last, hlast, hgreatest⟩ := hsound.last
    have hstep := ht.add (hnan first (List.mem_of_head? hfirst))
      (hnan last (List.mem_of_getLast? hlast)) hleast hgreatest
    have hmin : F64.min (timeRangeOf es).1 first =
        if first.lt (timeRangeOf es).1 then first else (timeRangeOf es).1 :=
      if_neg (by rw [ht.min_number]; exact Bool.false_ne_true)
    have hmax : F64.max (timeRangeOf es).2 last =
        if (timeRangeOf es).2.lt last then last else (timeRangeOf es).2 :=
      if_neg (by rw [ht.max_number]; exact Bool.false_ne_true)
    rw [hmin, hmax] at hstep
    rw [entryTimes_concat, timeRangeOf, List.foldl_append, ← timeRangeOf, List.foldl_cons, hfirst,
      hlast]
    exact hstep

/-! ## The range of a pointer -/

section Pointers

variable {all es : List TemporalIndexEntry} {l : ℕ} {store : Store}

/-- The entries of a page below a boundary are, up to the next boundary, whole subtrees of an
index. -/
structure Saturated (all es : List TemporalIndexEntry) (l : ℕ) : Prop where
  subset : es ⊆ all
  closed : ∀ e ∈ es, ∀ e' ∈ all, l ≤ e.key.level → l ≤ e'.key.level →
    ancestorAt e'.key l = ancestorAt e.key l → e' ∈ es

/-- The index as a whole is a union of subtrees. -/
lemma Saturated.refl (all : List TemporalIndexEntry) (l : ℕ) : Saturated all all l :=
  ⟨List.Subset.refl all, fun _ _ _ he _ _ _ => he⟩

/-- An entry of the index at or below the key of a group is in the page, or in the group. -/
lemma Saturated.mem_of_isAncestor (h : Saturated all es l)
    {g : VoxelKey × List TemporalIndexEntry}
    (hg : g ∈ childGroups TemporalIndexEntry.key l (es.filter fun e => ¬ e.key.level ≤ l))
    {e : TemporalIndexEntry} (he : e ∈ all) (hanc : IsAncestor g.1 e.key) :
    (e ∈ es.filter (fun e => e.key.level ≤ l) ∧ e.key = g.1) ∨ e ∈ g.2 := by
  obtain ⟨hlevel, hne, hsub, hbelow⟩ :=
    childGroups_spec (fun e he => (boundary_lt_of_grouped he).le) hg
  obtain ⟨e', he'⟩ := List.exists_mem_of_ne_nil _ hne
  have hdeep : l < e'.key.level := boundary_lt_of_grouped (hsub.subset he')
  have hle : l ≤ e.key.level := hlevel ▸ hanc.1
  have hsame : ancestorAt e.key l = g.1 := by
    rw [← hlevel]
    exact hanc.2
  have hsame' : ancestorAt e'.key l = g.1 := by
    rw [← hlevel]
    exact (hbelow e' he').2
  have hes : e ∈ es := h.closed e' (List.mem_filter.mp (hsub.subset he')).1 e he hdeep.le hle
    (hsame.trans hsame'.symm)
  rcases hle.eq_or_lt with heq | hlt
  · left
    refine ⟨List.mem_filter.mpr ⟨hes, by simp [heq]⟩, ?_⟩
    exact (hanc.eq_of_level (by rw [VoxelKey.level_eq, VoxelKey.level_eq]; omega)).symm
  · right
    rw [(mem_childGroups.mp hg).2]
    refine List.mem_filter.mpr ⟨List.mem_filter.mpr ⟨hes, ?_⟩, by simpa using hsame⟩
    simpa using hlt

/-- A group at a boundary is, up to a later boundary, a union of whole subtrees. -/
lemma Saturated.next (h : Saturated all es l) {m : ℕ} (hlm : l < m)
    {g : VoxelKey × List TemporalIndexEntry}
    (hg : g ∈ childGroups TemporalIndexEntry.key l (es.filter fun e => ¬ e.key.level ≤ l)) :
    Saturated all g.2 m := by
  obtain ⟨hlevel, -, hsub, hbelow⟩ :=
    childGroups_spec (fun e he => (boundary_lt_of_grouped he).le) hg
  refine ⟨fun e he => h.subset (List.mem_filter.mp (hsub.subset he)).1,
    fun e he e' he' hle hle' hsame => ?_⟩
  have hkey : IsAncestor g.1 e'.key := by
    have hcoarse := ancestorAt_ancestorAt (k := e'.key) (hlevel.trans_lt hlm).le hle'
    rw [hsame, ancestorAt_ancestorAt (k := e.key) (hlevel.trans_lt hlm).le hle] at hcoarse
    exact ⟨(hlevel.trans_lt hlm).le.trans hle', hcoarse.symm.trans (hbelow e he).2⟩
  rcases h.mem_of_isAncestor hg he' hkey with ⟨-, heq⟩ | hmem
  · rw [heq, hlevel] at hle'
    exact absurd hle' (not_le.mpr hlm)
  · exact hmem

/-- The range of a pointer takes in all times at or below its key. -/
lemma Saturated.clamped (h : Saturated all es l) (hall : ∀ e ∈ all, EntrySound store e)
    {g : VoxelKey × List TemporalIndexEntry}
    (hg : g ∈ childGroups TemporalIndexEntry.key l (es.filter fun e => ¬ e.key.level ≤ l)) :
    Clamped {x | ∃ e ∈ all, IsAncestor g.1 e.key ∧ x ∈ nodeTimes store e.key}
      ((subtreeTimes (es.filter fun e => e.key.level ≤ l) g).timeMin,
        (subtreeTimes (es.filter fun e => e.key.level ≤ l) g).timeMax) := by
  obtain ⟨-, -, hsub, hbelow⟩ :=
    childGroups_spec (fun e he => (boundary_lt_of_grouped he).le) hg
  have hmem : ∀ e ∈ g.2, e ∈ all := fun e he =>
    h.subset (List.mem_filter.mp (hsub.subset he)).1
  have hgroup := clamped_timeRangeOf fun e he => hall e (hmem e he)
  unfold subtreeTimes
  dsimp only
  cases hroot : (es.filter fun e => e.key.level ≤ l).find? fun e => e.key = g.1 with
  | none =>
    -- no node has the key of the pointer
    have htimes : {x | ∃ e ∈ all, IsAncestor g.1 e.key ∧ x ∈ nodeTimes store e.key} =
        entryTimes store g.2 := by
      ext x
      constructor
      · rintro ⟨e, he, hanc, hx⟩
        rcases h.mem_of_isAncestor hg he hanc with ⟨hown, heq⟩ | hin
        · exact absurd (decide_eq_true heq) (List.find?_eq_none.mp hroot e hown)
        · exact ⟨e, hin, hx⟩
      · rintro ⟨e, he, hx⟩
        exact ⟨e, hmem e he, hbelow e he, hx⟩
    rw [htimes]
    exact hgroup
  | some root =>
    have hrootmem : root ∈ all :=
      h.subset (List.mem_filter.mp (List.mem_of_find?_eq_some hroot)).1
    have hrootkey : root.key = g.1 := by
      simpa using List.find?_some hroot
    have hown := @clamped_timeRangeOf store [root] fun e he => by
      rw [List.mem_singleton.mp he]
      exact hall root hrootmem
    have htimes : {x | ∃ e ∈ all, IsAncestor g.1 e.key ∧ x ∈ nodeTimes store e.key} =
        entryTimes store g.2 ∪ entryTimes store [root] := by
      ext x
      constructor
      · rintro ⟨e, he, hanc, hx⟩
        rcases h.mem_of_isAncestor hg he hanc with ⟨-, heq⟩ | hin
        · refine Or.inr ⟨root, List.mem_singleton_self root, ?_⟩
          rwa [hrootkey, ← heq]
        · exact Or.inl ⟨e, hin, hx⟩
      · rintro (⟨e, he, hx⟩ | ⟨e, he, hx⟩)
        · exact ⟨e, hmem e he, hbelow e he, hx⟩
        · rw [List.mem_singleton.mp he] at hx
          refine ⟨root, hrootmem, ?_, hx⟩
          rw [hrootkey]
          exact IsAncestor.refl g.1
    rw [htimes]
    exact hgroup.union hown

/-- What is known of the pointers of an index: they sit at every third level, above some node, and
take in all times at or below their key. -/
structure PointerSound (store : Store) (all : List TemporalIndexEntry)
    (t : SubtreeTimes) : Prop where
  third : 3 ∣ t.key.level
  pos : 0 < t.key.level
  above : ∃ e ∈ all, IsProperAncestor t.key e.key
  clamped : Clamped {x | ∃ e ∈ all, IsAncestor t.key e.key ∧ x ∈ nodeTimes store e.key}
    (t.timeMin, t.timeMax)

@[simp] lemma key_subtreeTimes (own : List TemporalIndexEntry)
    (g : VoxelKey × List TemporalIndexEntry) : (subtreeTimes own g).key = g.1 := by
  unfold subtreeTimes
  dsimp only
  split <;> rfl

/-- All pointers of the pages are sound. -/
lemma pointerSound_of_mem (hall : ∀ e ∈ all, EntrySound store e) {maxLevel : ℕ} {bs : List ℕ}
    (hbs : Ladder maxLevel 3 bs) : ∀ rs ∈ pagesFrom splitTemporal bs all 0, ∀ r ∈ rs,
      r.Satisfies (EntrySound store) (PointerSound store all) := by
  refine pagesFrom_induction (I := fun bs es =>
    ∃ l, Ladder maxLevel l bs ∧ 3 ∣ l ∧ 0 < l ∧ Saturated all es l) ?_ ?_ ?_
    ⟨3, hbs, dvd_refl 3, by norm_num, Saturated.refl all 3⟩ 0
  · rintro bs es ⟨l, -, -, -, hsat⟩ e he
    exact hall e (hsat.subset he)
  · rintro b bs es ⟨l, -, -, -, hsat⟩ e he
    exact hall e (hsat.subset (List.mem_filter.mp he).1)
  · rintro b bs es ⟨l, ⟨rfl, -, hrest⟩, hthird, hpos, hsat⟩ g hg
    obtain ⟨g, hgroup, rfl⟩ := List.mem_map.mp hg
    obtain ⟨hlevel, hne, hsub, hbelow⟩ :=
      childGroups_spec (fun e he => (boundary_lt_of_grouped he).le) hgroup
    refine ⟨⟨?_, ?_, ?_, ?_⟩, b + 3, hrest, hthird.add (dvd_refl 3), by omega,
      hsat.next (by omega) hgroup⟩
    · rw [key_subtreeTimes, hlevel]
      exact hthird
    · rw [key_subtreeTimes, hlevel]
      exact hpos
    · obtain ⟨e, he⟩ := List.exists_mem_of_ne_nil _ hne
      refine ⟨e, hsat.subset (List.mem_filter.mp (hsub.subset he)).1, ?_, ?_⟩
      · rw [key_subtreeTimes, VoxelKey.level_eq, hlevel]
        exact boundary_lt_of_grouped (hsub.subset he)
      · rw [key_subtreeTimes]
        exact (hbelow e he).2
    · rw [key_subtreeTimes]
      exact hsat.clamped hall hgroup

/-- Every key at a third level above some node has a pointer. -/
lemma exists_pointer {maxLevel : ℕ} {k : VoxelKey} {e : TemporalIndexEntry}
    (hk : IsProperAncestor k e.key) (hthird : 3 ∣ k.level) (hmax : e.key.level ≤ maxLevel)
    {bs : List ℕ} (hbs : Ladder maxLevel l bs) (hl : 3 ∣ l) (hle : l ≤ k.level) (he : e ∈ es)
    (base : ℕ) : ∃ rs ∈ pagesFrom splitTemporal bs es base, ∃ t i,
      Record.pointer t i ∈ rs ∧ t.key = k := by
  have hdeep : k.level < e.key.level := hk.1
  induction bs generalizing l es base with
  | nil =>
    have hstop : maxLevel ≤ l := hbs
    omega
  | cons b bs ih =>
    obtain ⟨rfl, -, hrest⟩ := hbs
    have hgrouped : e ∈ es.filter fun e => ¬ e.key.level ≤ b :=
      List.mem_filter.mpr ⟨he, by simpa using hle.trans_lt hdeep⟩
    have hgroup : (ancestorAt e.key b, (es.filter fun e => ¬ e.key.level ≤ b).filter fun e' =>
        ancestorAt e'.key b = ancestorAt e.key b) ∈ childGroups TemporalIndexEntry.key b
          (es.filter fun e => ¬ e.key.level ≤ b) := mem_childGroups.mpr ⟨⟨e, hgrouped, rfl⟩, rfl⟩
    have hchild := List.mem_map_of_mem
      (f := fun g => (subtreeTimes (es.filter fun e => e.key.level ≤ b) g, g.2)) hgroup
    obtain ⟨i, hpointer, hpages⟩ :=
      exists_pointer_of_mem (f := pagesFrom splitTemporal bs) hchild (base + 1)
    rcases hle.eq_or_lt with heq | hlt
    · refine ⟨_, List.mem_cons_self, _, i, List.mem_append_right _ hpointer, ?_⟩
      rw [key_subtreeTimes, heq]
      exact hk.2
    · have hin : e ∈ (es.filter fun e => ¬ e.key.level ≤ b).filter fun e' =>
          ancestorAt e'.key b = ancestorAt e.key b :=
        List.mem_filter.mpr ⟨hgrouped, decide_eq_true rfl⟩
      obtain ⟨rs, hrs, hfound⟩ := ih hrest (hl.add (dvd_refl 3)) (by omega) hin i
      exact ⟨rs, List.mem_cons_of_mem _ (hpages rs hrs), hfound⟩

end Pointers

/-! ## The index -/

/-- The ends of a range are among its times unless all times are infinite, and of one sign. -/
lemma Clamped.attained_iff {times : Set ℤ} {t : F64 × F64} (h : Clamped times t) :
    (IsLeast times t.1.key ↔ ∃ x ∈ times, x ≤ F64.maxValue.key) ∧
      (IsGreatest times t.2.key ↔ ∃ x ∈ times, F64.minValue.key ≤ x) := by
  obtain ⟨hmin, hlower⟩ := h.least
  obtain ⟨hmax, hupper⟩ := h.greatest
  refine ⟨⟨fun hleast => ⟨_, hleast.1, hlower (Set.mem_insert _ _)⟩, ?_⟩,
    ⟨fun hgreatest => ⟨_, hgreatest.1, hupper (Set.mem_insert _ _)⟩, ?_⟩⟩
  · rintro ⟨x, hx, hle⟩
    refine ⟨?_, fun y hy => hlower (Set.mem_insert_of_mem _ hy)⟩
    rcases hmin with heq | hmem
    · -- the largest finite number is itself one of the times
      have hxmin := hlower (Set.mem_insert_of_mem _ hx)
      rw [heq] at hxmin ⊢
      rwa [le_antisymm hxmin hle]
    · exact hmem
  · rintro ⟨x, hx, hle⟩
    refine ⟨?_, fun y hy => hupper (Set.mem_insert_of_mem _ hy)⟩
    rcases hmax with heq | hmem
    · have hxmax := hupper (Set.mem_insert_of_mem _ hx)
      rw [heq] at hxmax ⊢
      rwa [le_antisymm hle hxmax]
    · exact hmem

/-- The records of an index in the order in which they are written; none when the levels
overflow. -/
def temporalRecords (es : List TemporalIndexEntry) (evlrDataStart : UInt64) :
    Option (List (Record TemporalIndexEntry SubtreeTimes Link)) :=
  (choosePageBoundaries (maxLevelOf (es.map TemporalIndexEntry.key))).map fun boundaries =>
    let pages := pagesFrom splitTemporal boundaries es 0
    pages.flatten.map (Record.retarget (linkTo (evlrDataStart + UInt64.ofNat temporalHeaderSize)
      (pages.map temporalFormat.page)))

/-- A payload is a header and the records. -/
lemma payload_eq_records {es : List TemporalIndexEntry} {stride : UInt32} {evlrDataStart : UInt64}
    {payload : List UInt8} (h : buildTemporalPayload es stride evlrDataStart = some payload) :
    ∃ header records, temporalRecords es evlrDataStart = some records ∧
      payload = TemporalIndexHeader.write header ++ records.flatMap temporalFormat.encode := by
  by_cases hne : es = []
  · subst hne
    have hbs : choosePageBoundaries (maxLevelOf []) = some [] := by
      rw [choosePageBoundaries, boundaryLoop]
      rfl
    rw [buildTemporalPayload, if_pos List.isEmpty_nil] at h
    obtain rfl := Option.some.inj h
    refine ⟨_, [], ?_, (List.append_nil _).symm⟩
    rw [temporalRecords, List.map_nil, hbs]
    rfl
  · have hbuild := h
    rw [buildTemporalPayload, if_neg (by rwa [List.isEmpty_iff])] at hbuild
    obtain ⟨built, hbuilt, -⟩ := Option.bind_eq_some_iff.mp hbuild
    obtain ⟨bs, hbs, -⟩ := Option.map_eq_some_iff.mp hbuilt
    rw [(buildTemporalPayload_eq hne hbs stride evlrDataStart).2] at h
    simp only at h
    split_ifs at h
    rw [flatten_patchPages] at h
    refine ⟨_, _, ?_, (Option.some.inj h).symm⟩
    rw [temporalRecords, hbs, Option.map_some]

section Records

variable {all : List TemporalIndexEntry} {evlrDataStart : UInt64} {store : Store}
  {records : List (Record TemporalIndexEntry SubtreeTimes Link)}

/-- The records hold the entries, each once. -/
lemma entries_temporalRecords (h : temporalRecords all evlrDataStart = some records) :
    (entries records).Perm all := by
  obtain ⟨bs, -, rfl⟩ := Option.map_eq_some_iff.mp h
  rw [entries_retarget, entries_flatten]
  exact pagesFrom_entries_perm splitTemporal_perm bs all 0

/-- All records are sound. -/
lemma temporalRecords_sound (hall : ∀ e ∈ all, EntrySound store e)
    (h : temporalRecords all evlrDataStart = some records) :
    ∀ r ∈ records, r.Satisfies (EntrySound store) (PointerSound store all) := by
  obtain ⟨bs, hbs, rfl⟩ := Option.map_eq_some_iff.mp h
  intro r hr
  obtain ⟨r', hr', rfl⟩ := List.mem_map.mp hr
  obtain ⟨rs, hrs, hmem⟩ := List.mem_flatten.mp hr'
  rw [Record.satisfies_retarget]
  exact pointerSound_of_mem hall (choosePageBoundaries_ladder hbs) rs hrs r' hmem

/-- Every key at a third level above some node has a pointer record. -/
lemma exists_pointer_record (h : temporalRecords all evlrDataStart = some records)
    {e : TemporalIndexEntry} (he : e ∈ all) {k : VoxelKey} (hk : IsProperAncestor k e.key)
    (hthird : 3 ∣ k.level) (hpos : 0 < k.level) :
    ∃ t link, Record.pointer t link ∈ records ∧ t.key = k := by
  obtain ⟨bs, hbs, rfl⟩ := Option.map_eq_some_iff.mp h
  obtain ⟨rs, hrs, t, i, hpointer, hkey⟩ := exists_pointer hk hthird
    (level_le_maxLevelOf (List.mem_map_of_mem he)) (choosePageBoundaries_ladder hbs) (dvd_refl 3)
    (Nat.le_of_dvd hpos hthird) he 0
  exact ⟨t, _, List.mem_map_of_mem (f := Record.retarget _)
    (List.mem_flatten.mpr ⟨rs, hrs, hpointer⟩), hkey⟩

end Records

section Index

variable {o : IterOrder} {stride : TemporalStride} {store : Store}
  {nodeKeys : List (VoxelKey × ℕ)} {evlrDataStart : UInt64}

/-- The entries are those of the nodes with points, in order. -/
lemma keys_temporalEntries (o : IterOrder) (stride : TemporalStride) (store : Store)
    (nodeKeys : List (VoxelKey × ℕ)) :
    (temporalEntries o stride store nodeKeys).map TemporalIndexEntry.key =
      (dataKeys nodeKeys).map Prod.fst := by
  rw [temporalEntries, List.map_map]
  exact (encodeNodes_spec o _ store nodeKeys).1

/-- There is an entry for every node with points. -/
lemma mem_temporalEntries {k : VoxelKey} :
    (∃ e ∈ temporalEntries o stride store nodeKeys, e.key = k) ↔
      ∃ e ∈ dataKeys nodeKeys, e.1 = k := by
  rw [← List.mem_map, ← List.mem_map, keys_temporalEntries]

/-- An entry has at most one sample for every point of its node. -/
lemma length_samples_le {e : TemporalIndexEntry}
    (he : e ∈ temporalEntries o stride store nodeKeys) :
    e.samples.length ≤ (store e.key).length := by
  obtain ⟨r, hr, rfl⟩ := List.mem_map.mp he
  obtain ⟨o', ho'⟩ := (encodeNodes_spec o _ store nodeKeys).2 r hr
  simp only [ho', encodeNode]
  exact (length_samplesOf_le _ _).trans_eq (sortOf_sortedByTime o' _).perm.length_eq

/-- When counts are right and times are numbers, all entries are sound. -/
lemma temporalEntries_sound (hcount : ∀ e ∈ nodeKeys, e.2 = (store e.1).length)
    (hnan : ∀ e ∈ nodeKeys, ∀ p ∈ store e.1, (timeOf p).isNaN = false) :
    ∀ e ∈ temporalEntries o stride store nodeKeys, EntrySound store e := by
  intro e he
  obtain ⟨d, hd, hkey⟩ := mem_temporalEntries.mp ⟨e, he, rfl⟩
  obtain ⟨hmem, hpos⟩ := mem_dataKeys.mp hd
  obtain ⟨r, hr, rfl⟩ := List.mem_map.mp he
  obtain ⟨o', hresult⟩ := (encodeNodes_spec o _ store nodeKeys).2 r hr
  have hne : store r.1 ≠ [] := by
    apply List.ne_nil_of_length_pos
    rw [← show d.1 = r.1 from hkey, ← hcount d hmem]
    exact hpos
  have hpoints : ∀ p ∈ store r.1, (timeOf p).isNaN = false := fun p hp =>
    hnan d hmem p (by rwa [show d.1 = r.1 from hkey])
  rw [EntrySound, hresult]
  exact samplesSound_encodeNode hne hpoints

/-- The times below a key are those of the entries below it. -/
lemma timesBelow_eq (hcount : ∀ e ∈ nodeKeys, e.2 = (store e.1).length) (k : VoxelKey) :
    timesBelow store nodeKeys k = {x | ∃ e ∈ temporalEntries o stride store nodeKeys,
      IsAncestor k e.key ∧ x ∈ nodeTimes store e.key} := by
  ext x
  constructor
  · rintro ⟨d, hd, hanc, p, hp, rfl⟩
    have hpos : 0 < d.2 := by
      rw [hcount d hd]
      exact List.length_pos_of_mem hp
    obtain ⟨e, he, hkey⟩ := (@mem_temporalEntries o stride store nodeKeys _).mpr
      ⟨d, mem_dataKeys.mpr ⟨hd, hpos⟩, rfl⟩
    refine ⟨e, he, ?_, ?_⟩
    · rwa [hkey]
    · rw [hkey]
      exact ⟨p, hp, rfl⟩
  · rintro ⟨e, he, hanc, hx⟩
    obtain ⟨d, hd, hkey⟩ := mem_temporalEntries.mp ⟨e, he, rfl⟩
    refine ⟨d, (mem_dataKeys.mp hd).1, ?_, ?_⟩
    · rwa [hkey]
    · rwa [hkey]

/-- Some point at or below a key has a time other than infinity, and some has one other than
negative infinity. -/
def NotAllInfinite (store : Store) (nodeKeys : List (VoxelKey × ℕ)) (k : VoxelKey) : Prop :=
  (∃ e ∈ nodeKeys, IsAncestor k e.1 ∧ ∃ p ∈ store e.1, timeOf p ≠ F64.infinity) ∧
    ∃ e ∈ nodeKeys, IsAncestor k e.1 ∧ ∃ p ∈ store e.1, timeOf p ≠ F64.negInfinity

/-- The range of a pointer is sound exactly when the times below it are not all the same
infinity. -/
lemma rangeSound_iff (hnan : ∀ e ∈ nodeKeys, ∀ p ∈ store e.1, (timeOf p).isNaN = false)
    {t : SubtreeTimes} (h : Clamped (timesBelow store nodeKeys t.key) (t.timeMin, t.timeMax)) :
    RangeSound store nodeKeys t ↔ NotAllInfinite store nodeKeys t.key := by
  have habove : F64.maxValue.key < F64.infinity.key := by decide
  have hbelow : F64.negInfinity.key < F64.minValue.key := by decide
  refine and_congr (h.attained_iff.1.trans ?_) (h.attained_iff.2.trans ?_)
  · constructor
    · rintro ⟨x, ⟨e, he, hanc, p, hp, rfl⟩, hle⟩
      refine ⟨e, he, hanc, p, hp, fun hinf => ?_⟩
      rw [hinf] at hle
      exact absurd hle (not_le.mpr habove)
    · rintro ⟨e, he, hanc, p, hp, hne⟩
      exact ⟨_, ⟨e, he, hanc, p, hp, rfl⟩, (F64.key_le_or (hnan e he p hp)).resolve_right hne⟩
  · constructor
    · rintro ⟨x, ⟨e, he, hanc, p, hp, rfl⟩, hle⟩
      refine ⟨e, he, hanc, p, hp, fun hinf => ?_⟩
      rw [hinf] at hle
      exact absurd hle (not_le.mpr hbelow)
    · rintro ⟨e, he, hanc, p, hp, hne⟩
      exact ⟨_, ⟨e, he, hanc, p, hp, rfl⟩, (F64.le_key_or (hnan e he p hp)).resolve_right hne⟩

/-- **Pruning by time is sound** in the written index exactly when, at no third level, all points at
or below a key with points below it have the same infinity as their time.  The entries are sound in
any case. -/
theorem writeTemporalIndex_sound_iff (hcount : ∀ e ∈ nodeKeys, e.2 = (store e.1).length)
    (hnan : ∀ e ∈ nodeKeys, ∀ p ∈ store e.1, (timeOf p).isNaN = false) {payload : List UInt8}
    (h : writeTemporalIndex o stride store nodeKeys evlrDataStart = some payload) :
    ∃ header records,
      temporalRecords (temporalEntries o stride store nodeKeys) evlrDataStart = some records ∧
      payload = TemporalIndexHeader.write header ++ records.flatMap temporalFormat.encode ∧
      (∀ e ∈ nodeKeys, store e.1 ≠ [] → ∃ e' ∈ entries records, e'.key = e.1) ∧
      ((∀ r ∈ records, r.Satisfies (fun e => SamplesSound (nodeTimes store e.key) e.samples)
          (RangeSound store nodeKeys)) ↔
        ∀ k : VoxelKey, 3 ∣ k.level → 0 < k.level →
          (∃ e ∈ nodeKeys, IsProperAncestor k e.1 ∧ store e.1 ≠ []) →
            NotAllInfinite store nodeKeys k) := by
  obtain ⟨header, records, hrecords, hpayload⟩ := payload_eq_records h
  obtain ⟨es, hes⟩ : ∃ es, es = temporalEntries o stride store nodeKeys := ⟨_, rfl⟩
  have hsound : ∀ e ∈ es, EntrySound store e := hes ▸ temporalEntries_sound hcount hnan
  have hnode : ∀ e ∈ nodeKeys, store e.1 ≠ [] → ∃ e' ∈ es, e'.key = e.1 := by
    intro e he hne
    rw [hes]
    refine mem_temporalEntries.mpr ⟨e, mem_dataKeys.mpr ⟨he, ?_⟩, rfl⟩
    rw [hcount e he]
    exact List.length_pos_of_ne_nil hne
  rw [← hes] at hrecords ⊢
  have hrange : ∀ t, PointerSound store es t →
      (RangeSound store nodeKeys t ↔ NotAllInfinite store nodeKeys t.key) := by
    intro t ht
    have hclamped := ht.clamped
    rw [hes, ← timesBelow_eq hcount] at hclamped
    exact rangeSound_iff hnan hclamped
  have hrecord := temporalRecords_sound hsound hrecords
  refine ⟨header, records, hrecords, hpayload, fun e he hne => ?_, ?_, ?_⟩
  · obtain ⟨e', he', hkey⟩ := hnode e he hne
    exact ⟨e', (entries_temporalRecords hrecords).mem_iff.mpr he', hkey⟩
  · rintro hall k hthird hpos ⟨e, he, hproper, hne⟩
    obtain ⟨e', he', hkey⟩ := hnode e he hne
    rw [← hkey] at hproper
    obtain ⟨t, link, hpointer, rfl⟩ := exists_pointer_record hrecords he' hproper hthird hpos
    exact (hrange t (hrecord _ hpointer)).mp (hall _ hpointer)
  · intro hfinite r hr
    have hsat := hrecord r hr
    cases r with
    | entry e => exact hsat.1
    | pointer t i =>
      have hpointer : PointerSound store es t := hsat
      obtain ⟨e, he, hproper⟩ := hpointer.above
      rw [hes] at he
      obtain ⟨d, hd, hkey⟩ := mem_temporalEntries.mp ⟨e, he, rfl⟩
      obtain ⟨hdmem, hdpos⟩ := mem_dataKeys.mp hd
      refine (hrange t hpointer).mpr (hfinite t.key hpointer.third hpointer.pos
        ⟨d, hdmem, by rwa [hkey], fun hnil => ?_⟩)
      rw [hcount d hdmem, hnil] at hdpos
      exact absurd hdpos (lt_irrefl 0)

end Index

/-! ## A few nodes -/

/-- A point with a GPS time. -/
def pointAtTime (t : F64) : RawPoint := { (default : RawPoint) with gpsTime := t.bits }

/-- A sampling stride of ten. -/
def tenthPoints : TemporalStride := ⟨10, by decide⟩

/-- The times 2 and 1 at the root, the times 3, 0 and 1 in the first node of level 4, and the time 4
in the last one. -/
def fewStore : Store := fun k =>
  if k = ⟨0, 0, 0, 0⟩ then [pointAtTime (.ofNat 2), pointAtTime (.ofNat 1)]
  else if k = ⟨4, 0, 0, 0⟩ then
    [pointAtTime (.ofNat 3), pointAtTime (.ofNat 0), pointAtTime (.ofNat 1)]
  else if k = ⟨4, 15, 15, 15⟩ then [pointAtTime (.ofNat 4)]
  else []

/-- The nodes as they are listed, one of them without points. -/
def fewNodes : List (VoxelKey × ℕ) :=
  [(⟨4, 15, 15, 15⟩, 1), (⟨0, 0, 0, 0⟩, 2), (⟨1, 0, 0, 0⟩, 0), (⟨4, 0, 0, 0⟩, 3)]

lemma fewStore_counts : ∀ e ∈ fewNodes, e.2 = (fewStore e.1).length := by decide

/-- All times are finite numbers. -/
lemma fewStore_times : ∀ e ∈ fewNodes, ∀ p ∈ fewStore e.1,
    (timeOf p).isNaN = false ∧ timeOf p ≠ F64.infinity ∧ timeOf p ≠ F64.negInfinity := by
  decide +kernel

lemma orderedNodes_few : orderedNodes fewNodes =
    [(⟨0, 0, 0, 0⟩, 2), (⟨1, 0, 0, 0⟩, 0), (⟨4, 0, 0, 0⟩, 3), (⟨4, 15, 15, 15⟩, 1)] :=
  orderedNodes_eq (by decide) (by decide)

lemma dataKeys_few : dataKeys fewNodes =
    [(⟨0, 0, 0, 0⟩, 2), (⟨4, 0, 0, 0⟩, 3), (⟨4, 15, 15, 15⟩, 1)] := by
  rw [dataKeys, orderedNodes_few]
  rfl

/-- The index has three entries, on four levels, with at most three samples each. -/
lemma temporalEntries_few (o : IterOrder) (stride : TemporalStride) :
    (temporalEntries o stride fewStore fewNodes).length = 3 ∧
      maxLevelOf ((temporalEntries o stride fewStore fewNodes).map
        TemporalIndexEntry.key) = 4 ∧
      ∀ e ∈ temporalEntries o stride fewStore fewNodes, e.samples.length ≤ 3 := by
  have hkeys := keys_temporalEntries o stride fewStore fewNodes
  rw [dataKeys_few] at hkeys
  refine ⟨?_, ?_, fun e he => (length_samples_le he).trans ?_⟩
  · rw [← List.length_map (f := TemporalIndexEntry.key), hkeys]
    rfl
  · rw [hkeys]
    rfl
  · unfold fewStore
    split_ifs <;> decide

/-- The range of every pointer of their index holds the times below it. -/
theorem writeTemporalIndex_sound_few : ∃ payload header,
    ∃ records : List (Record TemporalIndexEntry SubtreeTimes Link),
    writeTemporalIndex .listed tenthPoints fewStore fewNodes 1000 = some payload ∧
    payload = TemporalIndexHeader.write header ++ records.flatMap temporalFormat.encode ∧
    ∀ r ∈ records, r.Satisfies
      (fun e => SamplesSound (nodeTimes fewStore e.key) e.samples)
      (RangeSound fewStore fewNodes) := by
  obtain ⟨hlen, hlevel, hfew⟩ := temporalEntries_few .listed tenthPoints
  obtain ⟨payload, h⟩ := exists_buildTemporalPayload (List.ne_nil_of_length_pos (by omega)) hlevel
    hfew (by omega) tenthPoints.value 1000
  obtain ⟨header, records, -, hpayload, -, hsound⟩ := writeTemporalIndex_sound_iff
    fewStore_counts (fun e he p hp => (fewStore_times e he p hp).1) h
  refine ⟨payload, header, records, h, hpayload, hsound.mpr ?_⟩
  rintro k - - ⟨e, he, hproper, hne⟩
  obtain ⟨p, hp⟩ := List.exists_mem_of_ne_nil _ hne
  obtain ⟨-, hinf, hneg⟩ := fewStore_times e he p hp
  exact ⟨⟨e, he, hproper.isAncestor, p, hp, hinf⟩, e, he, hproper.isAncestor, p, hp, hneg⟩

/-! ## One node with one point -/

/-- A node below the first boundary. -/
def soleKey : VoxelKey := ⟨4, 0, 0, 0⟩

/-- A store with one point, in that node. -/
def soleStore (p : RawPoint) : Store := fun k => if k = soleKey then [p] else []

section Sole

variable {t : F64} {evlrDataStart : UInt64}

lemma soleStore_counts (p : RawPoint) : ∀ e ∈ [(soleKey, 1)], e.2 = (soleStore p e.1).length := by
  intro e he
  rw [List.mem_singleton.mp he, soleStore, if_pos rfl]
  rfl

lemma soleStore_times (ht : t.isNaN = false) :
    ∀ e ∈ [(soleKey, 1)], ∀ p ∈ soleStore (pointAtTime t) e.1, (timeOf p).isNaN = false := by
  intro e he p hp
  rw [List.mem_singleton.mp he, soleStore, if_pos rfl, List.mem_singleton] at hp
  rw [hp]
  exact ht

/-- The index has one entry with one sample. -/
lemma temporalEntries_sole (o : IterOrder) (stride : TemporalStride) :
    temporalEntries o stride (soleStore (pointAtTime t)) [(soleKey, 1)] =
      [⟨soleKey, [t]⟩] := by
  have hkeys : dataKeys [(soleKey, 1)] = [(soleKey, 1)] := by
    rw [dataKeys, orderedNodes, List.mergeSort_singleton]
    rfl
  have hwindows : windows [(soleKey, 1)] = [[(soleKey, 1)]] := by
    rw [windows, takeWindow, windows]
  have hsorted : ∀ o, sortedByTime o (soleStore (pointAtTime t) soleKey) = [pointAtTime t] := by
    intro o
    have hlist : o.list [pointAtTime t] = [pointAtTime t] :=
      List.perm_singleton.mp (o.list_perm _)
    rw [sortedByTime, soleStore, if_pos rfl, hlist, List.mergeSort_singleton]
  rw [temporalEntries, encodeNodes, hkeys, hwindows]
  simp only [List.mapIdx_cons, List.mapIdx_nil, List.flatten_cons, List.flatten_nil,
    List.append_nil, List.map_cons, List.map_nil, encodeNode, hsorted]
  rfl

/-- The index of the node is written. -/
lemma exists_payload_sole (o : IterOrder) (stride : TemporalStride) (t : F64)
    (evlrDataStart : UInt64) :
    ∃ payload, writeTemporalIndex o stride (soleStore (pointAtTime t)) [(soleKey, 1)]
      evlrDataStart = some payload := by
  rw [writeTemporalIndex, temporalEntries_sole]
  refine exists_buildTemporalPayload (List.cons_ne_nil _ _) rfl (fun e he => ?_) ?_ _ _
  · rw [List.mem_singleton.mp he]
    exact Nat.le_add_left 1 2
  · rw [List.length_singleton]
    norm_num

/-- The only point of a node has infinity as its time: the range of the pointer to the node starts
with the largest finite number, which is no time of a point. -/
theorem infinite_time_unsound : ∃ payload records,
    (timeOf (pointAtTime F64.infinity)).isNaN = false ∧
    writeTemporalIndex .listed tenthPoints (soleStore (pointAtTime F64.infinity)) [(soleKey, 1)]
      1000 = some payload ∧
    temporalRecords (temporalEntries .listed tenthPoints (soleStore (pointAtTime F64.infinity))
      [(soleKey, 1)]) 1000 = some records ∧
    ∃ t link, Record.pointer t link ∈ records ∧ IsAncestor t.key soleKey ∧
      t.timeMin.key = F64.maxValue.key ∧
      ¬ RangeSound (soleStore (pointAtTime F64.infinity)) [(soleKey, 1)] t := by
  obtain ⟨payload, h⟩ := exists_payload_sole .listed tenthPoints F64.infinity 1000
  have hsound := @temporalEntries_sound .listed tenthPoints _ _
    (soleStore_counts _) (soleStore_times (t := F64.infinity) (by decide))
  obtain ⟨header, records, hrecords, -⟩ := payload_eq_records h
  have hproper : IsProperAncestor (ancestorAt soleKey 3) soleKey := ⟨by decide, by decide⟩
  obtain ⟨t, link, hpointer, hkey⟩ :=
    exists_pointer_record hrecords (e := ⟨soleKey, [F64.infinity]⟩)
      (by rw [temporalEntries_sole]; exact List.mem_singleton_self _) hproper (by decide)
      (by decide)
  have hclamped := (show PointerSound _ _ t from
    temporalRecords_sound hsound hrecords _ hpointer).clamped
  rw [← timesBelow_eq (soleStore_counts _)] at hclamped
  -- the time of the point is above the largest finite number
  have htimes : ∀ x ∈ timesBelow (soleStore (pointAtTime F64.infinity)) [(soleKey, 1)] t.key,
      F64.maxValue.key < x := by
    rintro x ⟨e, he, -, p, hp, rfl⟩
    rw [List.mem_singleton.mp he, soleStore, if_pos rfl, List.mem_singleton] at hp
    rw [hp]
    decide
  have hmin : t.timeMin.key = F64.maxValue.key := by
    rcases hclamped.least.1 with heq | hmem
    · exact heq
    · exact absurd (hclamped.least.2 (Set.mem_insert _ _)) (not_le.mpr (htimes _ hmem))
  refine ⟨payload, records, by decide, h, hrecords, t, link, hpointer, ?_, hmin, fun hrange => ?_⟩
  · rw [hkey]
    exact hproper.isAncestor
  · exact absurd (htimes _ hrange.1.1) (by rw [hmin]; exact lt_irrefl _)

end Sole

end CopcConverter
