import CopcConverter.Foundations.BucketMap
import CopcConverter.Foundations.PageBytes
import CopcConverter.Octree.BuildNodeMap

/-!
# Page boundaries

Both indexes of the output, the hierarchy and the temporal index, are cut into pages at every third
level of the octree.  The nodes below a boundary are grouped by their ancestor at the boundary
level, every group becomes a page of its own, and the page above points to it.

The boundary levels are found by a loop in `i32` arithmetic that adds three until it gets to the
deepest level; it is described by `Ladder`, and it fails only for levels next to the largest number.
The ancestor at a level is found by a loop over `parent`.  Grouping is a rearrangement: every entry
is in the group of its ancestor, groups have different ancestors, and every ancestor has an entry
below it.  At the end, the nodes at most two levels below a boundary are counted, which bounds the
size of a page.
-/

namespace CopcConverter

open LevelTree

/-! ## Keys as bytes -/

namespace VoxelKey

/-- The level and the coordinates as `i32` numbers. -/
def bytes (k : VoxelKey) : List UInt8 :=
  Bytes.toLE 4 k.level ++ (Bytes.toLE 4 k.x ++ (Bytes.toLE 4 k.y ++ Bytes.toLE 4 k.z))

/-- Read four numbers that are not negative. -/
def read (bs : List UInt8) : Option (VoxelKey × List UInt8) := do
  let (level, bs) ← Bytes.readLE 4 bs
  let (x, bs) ← Bytes.readLE 4 bs
  let (y, bs) ← Bytes.readLE 4 bs
  let (z, bs) ← Bytes.readLE 4 bs
  if level < 2 ^ 31 ∧ x < 2 ^ 31 ∧ y < 2 ^ 31 ∧ z < 2 ^ 31 then some (⟨level, x, y, z⟩, bs)
  else none

/-- The numbers of a key are those of an `i32`. -/
def FitsI32 (k : VoxelKey) : Prop :=
  k.level < 2 ^ 31 ∧ k.x < 2 ^ 31 ∧ k.y < 2 ^ 31 ∧ k.z < 2 ^ 31

@[simp] lemma length_bytes (k : VoxelKey) : k.bytes.length = 16 := by
  simp [bytes]

/-- A key is read back from the front. -/
lemma read_bytes {k : VoxelKey} (h : k.FitsI32) (rest : List UInt8) :
    read (k.bytes ++ rest) = some (k, rest) := by
  obtain ⟨hlevel, hx, hy, hz⟩ := h
  have hwidth : ∀ n, n < 2 ^ 31 → n < 256 ^ 4 := by omega
  rw [read, bytes, List.append_assoc, Bytes.readLE_append (hwidth _ hlevel)]
  simp only [Option.bind_eq_bind, Option.bind_some, List.append_assoc,
    Bytes.readLE_append (hwidth _ hx), Bytes.readLE_append (hwidth _ hy),
    Bytes.readLE_append (hwidth _ hz)]
  exact if_pos ⟨hlevel, hx, hy, hz⟩

/-- The ancestors of a key that fits fit. -/
lemma FitsI32.of_isAncestor {a k : VoxelKey} (h : k.FitsI32) (ha : IsAncestor a k) : a.FitsI32 := by
  obtain ⟨hlevel, hx, hy, hz⟩ := h
  obtain ⟨hle, hax, hay, haz⟩ := isAncestor_iff.mp ha
  have hshift : ∀ n m : ℕ, n < 2 ^ 31 → n >>> m < 2 ^ 31 := fun n m hn => by
    rw [Nat.shiftRight_eq_div_pow]
    exact (Nat.div_le_self _ _).trans_lt hn
  exact ⟨hle.trans_lt hlevel, hax ▸ hshift _ _ hx, hay ▸ hshift _ _ hy, haz ▸ hshift _ _ hz⟩

end VoxelKey

/-! ## Levels -/

/-- Every third level from `l` on that is below `maxLevel`; none when the next level overflows
`i32`. -/
def boundaryLoop (maxLevel l : ℕ) : Option (List ℕ) :=
  if l < maxLevel then
    if l + 3 < 2 ^ 31 then (boundaryLoop maxLevel (l + 3)).map fun rest => l :: rest else none
  else some []
termination_by maxLevel - l

/-- The boundary levels for nested pages: every three levels, starting at level 3. -/
def choosePageBoundaries (maxLevel : ℕ) : Option (List ℕ) :=
  (boundaryLoop maxLevel 3).map fun boundaries =>
    if boundaries.isEmpty ∧ maxLevel > 3 then boundaries ++ [min maxLevel 3] else boundaries

/-- Every third level from `l` on, up to the last one below `maxLevel`. -/
def Ladder (maxLevel : ℕ) : ℕ → List ℕ → Prop
  | l, [] => maxLevel ≤ l
  | l, b :: bs => b = l ∧ l < maxLevel ∧ Ladder maxLevel (l + 3) bs

lemma boundaryLoop_ladder {maxLevel l : ℕ} {bs : List ℕ} (h : boundaryLoop maxLevel l = some bs) :
    Ladder maxLevel l bs := by
  induction bs generalizing l with
  | nil =>
    rw [boundaryLoop] at h
    split_ifs at h with hl
    · obtain ⟨rest, -, hnil⟩ := Option.map_eq_some_iff.mp h
      cases hnil
    · exact not_lt.mp hl
  | cons b bs ih =>
    rw [boundaryLoop] at h
    split_ifs at h with hl
    · obtain ⟨rest, hrest, hcons⟩ := Option.map_eq_some_iff.mp h
      obtain ⟨rfl, rfl⟩ := List.cons.inj hcons
      exact ⟨rfl, hl, ih hrest⟩
    · cases h

/-- The boundaries are every third level from 3 on. -/
lemma choosePageBoundaries_ladder {maxLevel : ℕ} {bs : List ℕ}
    (h : choosePageBoundaries maxLevel = some bs) : Ladder maxLevel 3 bs := by
  obtain ⟨boundaries, hloop, hbs⟩ := Option.map_eq_some_iff.mp h
  have hladder := boundaryLoop_ladder hloop
  split_ifs at hbs with hempty
  · obtain rfl := List.isEmpty_iff.mp hempty.1
    exact absurd hladder (not_le.mpr hempty.2)
  · rwa [← hbs]

lemma exists_boundaryLoop {maxLevel : ℕ} (hmax : maxLevel < 2 ^ 31 - 1) (n : ℕ) :
    ∀ l, 3 ∣ l → maxLevel ≤ l + n → ∃ bs, boundaryLoop maxLevel l = some bs := by
  induction n with
  | zero =>
    intro l _ hl
    rw [boundaryLoop, if_neg (by omega)]
    exact ⟨[], rfl⟩
  | succ n ih =>
    intro l hdvd hl
    rw [boundaryLoop]
    split_ifs with hlt hover
    · obtain ⟨bs, hbs⟩ := ih (l + 3) (by omega) (by omega)
      exact ⟨l :: bs, by rw [hbs, Option.map_some]⟩
    · omega
    · exact ⟨[], rfl⟩

/-- There are boundaries unless some level is the largest `i32`. -/
lemma exists_choosePageBoundaries {maxLevel : ℕ} (hmax : maxLevel < 2 ^ 31 - 1) :
    ∃ bs, choosePageBoundaries maxLevel = some bs := by
  obtain ⟨bs, hbs⟩ := exists_boundaryLoop hmax maxLevel 3 (dvd_refl 3) (by omega)
  exact ⟨_, by rw [choosePageBoundaries, hbs, Option.map_some]⟩

/-- There are fewer boundaries than thirds of levels. -/
lemma Ladder.length_le {maxLevel l : ℕ} {bs : List ℕ} (h : Ladder maxLevel l bs) (hl : 3 ≤ l) :
    3 * bs.length + l ≤ max l (maxLevel + 2) := by
  induction bs generalizing l with
  | nil => simp
  | cons b bs ih =>
    obtain ⟨-, hlt, hrest⟩ := h
    have := ih hrest (by omega)
    rw [List.length_cons]
    omega

/-- The largest level of some keys, zero without keys. -/
def maxLevelOf (keys : List VoxelKey) : ℕ := (keys.map VoxelKey.level).foldr max 0

lemma level_le_maxLevelOf {keys : List VoxelKey} {k : VoxelKey} (h : k ∈ keys) :
    k.level ≤ maxLevelOf keys :=
  List.le_max_of_le' 0 (List.mem_map_of_mem h) le_rfl

lemma maxLevelOf_lt {keys : List VoxelKey} {n : ℕ} (hn : 0 < n) (h : ∀ k ∈ keys, k.level < n) :
    maxLevelOf keys < n := by
  induction keys with
  | nil => exact hn
  | cons k keys ih =>
    exact max_lt (h k List.mem_cons_self) (ih fun j hj => h j (List.mem_cons_of_mem _ hj))

/-! ## Groups -/

/-- Go up to the parent, at most `n` times, while the key is deeper than a level. -/
def ancestorLoop (level : ℕ) : ℕ → VoxelKey → VoxelKey
  | 0, k => k
  | n + 1, k => if k.level > level then ancestorLoop level n (k.parent.getD k) else k

/-- The ancestor at a level. -/
def ancestorAtLevel (key : VoxelKey) (level : ℕ) : VoxelKey := ancestorLoop level key.level key

lemma ancestorLoop_eq (level n : ℕ) (k : VoxelKey) (hn : k.level ≤ level + n) :
    ancestorLoop level n k = ancestorAt k level := by
  induction n generalizing k with
  | zero =>
    have hstop : k.level - level = 0 := by omega
    rw [ancestorLoop, ancestorAt, VoxelKey.level_eq, hstop]
    rfl
  | succ n ih =>
    rw [ancestorLoop]
    split_ifs with hk
    · have hup : LevelTree.level (up k) = k.level - 1 := level_up k
      have hrest := ih (up k) (by rw [VoxelKey.level_eq] at hup; omega)
      rw [ancestorAt_up hk] at hrest
      exact hrest
    · have hstop : k.level - level = 0 := by omega
      rw [ancestorAt, VoxelKey.level_eq, hstop]
      rfl

/-- Going up by parents ends at the ancestor of the tree. -/
lemma ancestorAtLevel_eq (key : VoxelKey) (level : ℕ) :
    ancestorAtLevel key level = ancestorAt key level :=
  ancestorLoop_eq level key.level key (Nat.le_add_left _ _)

section Groups

variable {α : Type} (key : α → VoxelKey) (boundary : ℕ)

/-- Group some entries by their ancestor at a boundary, in the order of the keys. -/
def childGroups (es : List α) : List (VoxelKey × List α) :=
  (BucketMap.pairs (BucketMap.pushAll (fun e => ancestorAtLevel (key e) boundary) ∅ es)).mergeSort
    fun a c => decide (a.1.sortKey ≤ c.1.sortKey)

variable {key boundary}

/-- A group consists of the entries below its key, of which there is at least one. -/
lemma mem_childGroups {es : List α} {g : VoxelKey × List α} :
    g ∈ childGroups key boundary es ↔
      (∃ e ∈ es, ancestorAt (key e) boundary = g.1) ∧
        g.2 = es.filter fun e => ancestorAt (key e) boundary = g.1 := by
  obtain ⟨k, l⟩ := g
  rw [childGroups, (List.mergeSort_perm _ _).mem_iff, BucketMap.mem_pairs, BucketMap.mem_pushAll,
    BucketMap.get_pushAll, BucketMap.get_empty, List.nil_append]
  simp only [ancestorAtLevel_eq, AList.notMem_empty, false_or]
  exact and_congr_right fun _ => eq_comm

@[simp] lemma childGroups_nil : childGroups key boundary [] = [] := by
  refine List.eq_nil_iff_forall_not_mem.mpr fun g hg => ?_
  obtain ⟨⟨e, he, -⟩, -⟩ := mem_childGroups.mp hg
  cases he

lemma nodup_childGroups (es : List α) : ((childGroups key boundary es).map Prod.fst).Nodup := by
  rw [childGroups, ((List.mergeSort_perm _ _).map Prod.fst).nodup_iff, BucketMap.map_fst_pairs]
  exact AList.keys_nodup _

/-- Cutting a list up by the values of a function loses nothing. -/
lemma flatMap_filter_perm {κ : Type} [DecidableEq κ] (f : α → κ) {keys : List κ}
    (hnodup : keys.Nodup) {l : List α} (h : ∀ x ∈ l, f x ∈ keys) :
    (keys.flatMap fun k => l.filter fun x => f x = k).Perm l := by
  induction keys generalizing l with
  | nil =>
    have hnil : l = [] := List.eq_nil_iff_forall_not_mem.mpr fun x hx => by cases h x hx
    rw [hnil]
    exact List.Perm.refl _
  | cons k keys ih =>
    obtain ⟨hk, hkeys⟩ := List.nodup_cons.mp hnodup
    have hrest := ih hkeys (l := l.filter fun x => ¬ f x = k) fun x hx => by
      obtain ⟨hxl, hxk⟩ := List.mem_filter.mp hx
      exact (List.mem_cons.mp (h x hxl)).resolve_left (by simpa using hxk)
    have hsame : (keys.flatMap fun j => (l.filter fun x => ¬ f x = k).filter fun x => f x = j) =
        keys.flatMap fun j => l.filter fun x => f x = j := by
      refine List.flatMap_congr fun j hj => ?_
      rw [List.filter_filter]
      refine List.filter_congr fun x _ => ?_
      have hne : f x = j → f x ≠ k := fun hxj hxk => hk (hxk ▸ hxj ▸ hj)
      by_cases hxj : f x = j
      · simp [hxj, hxj ▸ hne hxj]
      · simp [hxj]
    rw [hsame] at hrest
    rw [List.flatMap_cons]
    refine (hrest.append_left _).trans ?_
    have hall := List.filter_append_perm (fun x => decide (f x = k)) l
    simpa using hall

/-- The groups hold all entries. -/
lemma childGroups_perm (es : List α) :
    ((childGroups key boundary es).flatMap Prod.snd).Perm es := by
  have hgroups : (childGroups key boundary es).flatMap Prod.snd =
      ((childGroups key boundary es).map Prod.fst).flatMap fun k =>
        es.filter fun e => ancestorAt (key e) boundary = k := by
    rw [List.flatMap_map]
    exact List.flatMap_congr fun g hg => (mem_childGroups.mp hg).2
  rw [hgroups]
  refine flatMap_filter_perm _ (nodup_childGroups es) fun e he => ?_
  have hgroup : (ancestorAt (key e) boundary, es.filter fun e' =>
      ancestorAt (key e') boundary = ancestorAt (key e) boundary) ∈ childGroups key boundary es :=
    mem_childGroups.mpr ⟨⟨e, he, rfl⟩, rfl⟩
  exact List.mem_map_of_mem hgroup

/-- What is known of a group: its key is at the boundary, and its entries are those below it, of
which there is at least one. -/
lemma childGroups_spec {es : List α} (hes : ∀ e ∈ es, boundary ≤ (key e).level)
    {g : VoxelKey × List α} (h : g ∈ childGroups key boundary es) :
    g.1.level = boundary ∧ g.2 ≠ [] ∧ g.2.Sublist es ∧ ∀ e ∈ g.2, IsAncestor g.1 (key e) := by
  obtain ⟨⟨e, he, hkey⟩, hentries⟩ := mem_childGroups.mp h
  refine ⟨?_, ?_, ?_, fun e' he' => ?_⟩
  · rw [← hkey]
    exact level_ancestorAt (k := key e) (hes e he)
  · rw [hentries]
    exact List.ne_nil_of_mem (List.mem_filter.mpr ⟨he, by simpa using hkey⟩)
  · rw [hentries]
    exact List.filter_sublist
  · rw [hentries] at he'
    obtain ⟨hmem, hanc⟩ := List.mem_filter.mp he'
    rw [← of_decide_eq_true hanc]
    exact isAncestor_ancestorAt (k := key e') (hes e' hmem)

/-- An entry is in one group, the only one whose key is an ancestor of it. -/
lemma childGroups_leads [DecidableEq α] {es : List α} (hes : ∀ e ∈ es, boundary ≤ (key e).level)
    {e : α} (he : e ∈ es) :
    ∃ g, (childGroups key boundary es).filter (fun g => decide (IsAncestor g.1 (key e))) = [g] ∧
      e ∈ g.2 := by
  have hall : e ∈ (childGroups key boundary es).flatMap Prod.snd :=
    (childGroups_perm es).mem_iff.mpr he
  obtain ⟨g, hg, heg⟩ := List.mem_flatMap.mp hall
  obtain ⟨hglevel, -, -, hgbelow⟩ := childGroups_spec hes hg
  refine ⟨g, ?_, heg⟩
  -- groups whose keys are both ancestors of the entry have the same key
  have honly : ∀ g' ∈ childGroups key boundary es, IsAncestor g'.1 (key e) ↔ g' = g := by
    intro g' hg'
    constructor
    · intro hanc
      have hlevel : LevelTree.level g'.1 = LevelTree.level g.1 :=
        (childGroups_spec hes hg').1.trans hglevel.symm
      have hkey : g'.1 = g.1 :=
        (hanc.of_level_le (hgbelow e heg) hlevel.le).eq_of_level hlevel
      exact List.inj_on_of_nodup_map (nodup_childGroups es) hg' hg hkey
    · rintro rfl
      exact hgbelow e heg
  have hfilter : (childGroups key boundary es).filter (fun g => decide (IsAncestor g.1 (key e))) =
      (childGroups key boundary es).filter (fun g' => g' = g) :=
    List.filter_congr fun g' hg' => decide_eq_decide.mpr (honly g' hg')
  rw [hfilter, List.filter_eq, List.count_eq_one_of_mem (nodup_childGroups es).of_map hg,
    List.replicate_one]

end Groups

/-! ## The size of a subtree -/

/-- The keys `i` levels below a key. -/
def levelBelow (k : VoxelKey) (i : ℕ) : Finset VoxelKey :=
  (Finset.range (2 ^ i) ×ˢ Finset.range (2 ^ i) ×ˢ Finset.range (2 ^ i)).image fun c =>
    ⟨k.level + i, k.x * 2 ^ i + c.1, k.y * 2 ^ i + c.2.1, k.z * 2 ^ i + c.2.2⟩

lemma card_levelBelow_le (k : VoxelKey) (i : ℕ) : (levelBelow k i).card ≤ 8 ^ i := by
  apply Finset.card_image_le.trans
  rw [Finset.card_product, Finset.card_product, Finset.card_range, ← mul_pow, ← mul_pow]
  norm_num

lemma mem_levelBelow {k j : VoxelKey} (h : IsAncestor k j) :
    j ∈ levelBelow k (j.level - k.level) := by
  obtain ⟨hlevel, hx, hy, hz⟩ := VoxelKey.isAncestor_iff.mp h
  rw [Nat.shiftRight_eq_div_pow] at hx hy hz
  have hpos : 0 < 2 ^ (j.level - k.level) := Nat.two_pow_pos _
  refine Finset.mem_image.mpr ⟨(j.x % 2 ^ (j.level - k.level), j.y % 2 ^ (j.level - k.level),
    j.z % 2 ^ (j.level - k.level)), ?_, ?_⟩
  · simp only [Finset.mem_product, Finset.mem_range]
    exact ⟨Nat.mod_lt _ hpos, Nat.mod_lt _ hpos, Nat.mod_lt _ hpos⟩
  · simp only
    rw [← hx, ← hy, ← hz, Nat.div_add_mod', Nat.div_add_mod', Nat.div_add_mod',
      Nat.add_sub_cancel' hlevel]

/-- Three levels below a key there are at most 585 keys, the key included. -/
lemma length_le_of_below {k : VoxelKey} {l : List VoxelKey} (hnodup : l.Nodup)
    (h : ∀ j ∈ l, IsAncestor k j ∧ j.level ≤ k.level + 3) : l.length ≤ 585 := by
  have hsub : l.toFinset ⊆ (Finset.range 4).biUnion (levelBelow k) := by
    intro j hj
    obtain ⟨hanc, hlevel⟩ := h j (List.mem_toFinset.mp hj)
    exact Finset.mem_biUnion.mpr ⟨_, Finset.mem_range.mpr (by omega), mem_levelBelow hanc⟩
  calc l.length = l.toFinset.card := (List.toFinset_card_of_nodup hnodup).symm
    _ ≤ ((Finset.range 4).biUnion (levelBelow k)).card := Finset.card_le_card hsub
    _ ≤ ∑ i ∈ Finset.range 4, (levelBelow k i).card := Finset.card_biUnion_le
    _ ≤ ∑ i ∈ Finset.range 4, 8 ^ i := Finset.sum_le_sum fun i _ => card_levelBelow_le k i
    _ = 585 := by decide

end CopcConverter
