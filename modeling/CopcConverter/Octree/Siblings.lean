import CopcConverter.Foundations.BucketMap
import CopcConverter.Octree.Thinning

/-!
# Siblings grouped by parent

Both bottom-up loops of the build, the one over an in-memory map and the one over the node store,
start a level by grouping the present keys of the level below by their parents, and then sample the
points of every group.  `Grouped` says what such a grouping is: every parent of a present key once,
with all its present children.  Sampling every group makes one level pass in the sense of the
general theory, whatever order the groups are taken in, because different groups touch different
nodes.

The calls of `grid_sample` are recorded as well, each with the nodes before it, so that later
modules can speak about what a parent was handed up.  What it may be handed up is `HandsUp`: of some
arrangement of the points of its children those that move up in its sampling grid.
-/

namespace CopcConverter

open LevelTree TaggedSplit

variable {F : Type} [FloatArith F]

/-- Group keys by their parents. -/
def groupByParent (keys : List VoxelKey) : BucketMap VoxelKey VoxelKey :=
  BucketMap.groupBy VoxelKey.parent keys

/-- `P` lists every parent at level `d` of a present key once, with all its present children. -/
structure Grouped (d : ℕ) (present : VoxelKey → Prop) (P : List (VoxelKey × List VoxelKey)) :
    Prop where
  nodup : (P.map Prod.fst).Nodup
  level : ∀ q L, (q, L) ∈ P → q.level = d
  children : ∀ q L, (q, L) ∈ P → L.Nodup ∧ ∀ c, c ∈ L ↔ IsChild q c ∧ present c
  complete : ∀ q c, q.level = d → IsChild q c → present c → ∃ L, (q, L) ∈ P
  inhabited : ∀ q L, (q, L) ∈ P → L ≠ []

/-- The points that `grid_sample` moves up to the parent `q` of the children `L`. -/
def OctreeBuilder.promoted (b : OctreeBuilder F) (f : VoxelKey → List RawPoint) (q : VoxelKey)
    (L : List VoxelKey) : List RawPoint :=
  (b.gridSample q (tagged (L.map f)) L.length).1

/-- What a group has come to hold after sampling: the children what remained for them, the parent
what was promoted to it. -/
structure GroupSampled (b : OctreeBuilder F) (f f' : VoxelKey → List RawPoint) (q : VoxelKey)
    (L : List VoxelKey) : Prop where
  sampled : Sampled (L.map f) (b.promoted f q L) (L.map f')
  parent : f' q = if b.promoted f q L = [] then f q else b.promoted f q L

/-- Only the group's own nodes matter. -/
lemma GroupSampled.congr {b : OctreeBuilder F} {f f' f'' : VoxelKey → List RawPoint} {q : VoxelKey}
    {L : List VoxelKey} (h : GroupSampled b f f' q L) (heq : ∀ k, k = q ∨ k ∈ L → f'' k = f' k) :
    GroupSampled b f f'' q L where
  sampled := by
    rw [List.map_congr_left fun c hc => heq c (Or.inr hc)]
    exact h.sampled
  parent := by rw [heq q (Or.inl rfl), h.parent]

/-- The points of the nodes, without their order. -/
def stored (f : VoxelKey → List RawPoint) : VoxelKey → Multiset RawPoint := fun k => ↑(f k)

lemma stored_eq_zero {f : VoxelKey → List RawPoint} {k : VoxelKey} :
    stored f k = 0 ↔ f k = [] := by
  simp [stored]

lemma gathered_stored (f : VoxelKey → List RawPoint) (L : List VoxelKey) :
    gathered (stored f) L = ↑(L.map f).flatten := by
  induction L with
  | nil => rfl
  | cons c L ih =>
    rw [gathered_cons, ih, List.map_cons, List.flatten_cons]
    rfl

/-- Sampling a group is a sampling step of the pyramid. -/
lemma GroupSampled.sampleStep {b : OctreeBuilder F} {f f' : VoxelKey → List RawPoint}
    {q : VoxelKey} {L : List VoxelKey} (h : GroupSampled b f f' q L) (hL : ∀ c ∈ L, IsChild q c)
    (hnodup : L.Nodup)
    (hkept : ∀ c, IsChild q c → c ∉ L → f' c = f c) :
    SampleStep maxLeafPoints q L (stored f) (stored f') := by
  obtain ⟨hs, hq⟩ := h
  set parentPts := b.promoted f q L
  have hcard : (gathered (stored f) L).card = (L.map f).flatten.length := by
    rw [gathered_stored, Multiset.coe_card]
  have hzero : gathered (stored f) L = 0 ↔ (L.map f).flatten = [] := by
    rw [gathered_stored, Multiset.coe_eq_zero]
  have hrem : ((L.map f').map Multiset.ofList).sum = gathered (stored f') L := by
    rw [List.map_map]
    rfl
  have htotal := hs.total
  rw [hrem, ← gathered_stored] at htotal
  refine ⟨hL, hnodup, fun c hc hcL => congrArg _ (hkept c hc hcL), fun h0 => ?_, fun h0 hle => ?_,
    fun hlt => ⟨fun c hc => ?_, ↑parentPts, htotal, fun hp => ?_, fun hp => ?_⟩⟩
  · obtain ⟨hp, hr⟩ := hs.idle (hzero.mp h0)
    have hsame : f' q = f q := by rw [hq, if_pos hp]
    refine ⟨congrArg Multiset.ofList hsame, fun c hc => ?_⟩
    have hc0 : stored f c = 0 := gathered_eq_zero.mp h0 c hc
    rw [hc0]
    exact stored_eq_zero.mpr (hr _ (List.mem_map_of_mem hc))
  · obtain ⟨hp, hr⟩ := hs.collapse (hcard ▸ hle)
    refine ⟨?_, fun c hc => stored_eq_zero.mpr (hr _ (List.mem_map_of_mem hc))⟩
    have hne : parentPts ≠ [] := fun hnil => h0 (hzero.mpr (hp ▸ hnil))
    rw [stored, hq, if_neg hne, gathered_stored, hp]
  · obtain ⟨i, hi, rfl⟩ := List.getElem_of_mem hc
    have hget : ∀ g : VoxelKey → List RawPoint, (L.map g).getD i [] = g L[i] := fun g => by
      rw [List.getD_eq_getElem?_getD, List.getElem?_eq_getElem (by simpa using hi),
        List.getElem_map, Option.getD_some]
    have hk := hs.kept (hcard ▸ hlt) i (by simpa using hi)
    rw [hget f, hget f'] at hk
    exact ⟨hk.1, fun hne h0 => hk.2 (fun hnil => hne (stored_eq_zero.mpr hnil))
      (stored_eq_zero.mp h0)⟩
  · rw [stored, hq, if_pos (Multiset.coe_eq_zero _ |>.mp hp)]
    rfl
  · rw [stored, hq, if_neg fun hnil => hp (by rw [hnil]; rfl)]

/-- What may be handed up to the parent `q` from children `L` that hold the points `σ`: of some
arrangement of these points those that move up in the sampling grid of `q`. -/
def OctreeBuilder.HandsUp (b : OctreeBuilder F) (q : VoxelKey) (L : List VoxelKey)
    (σ : VoxelKey → Multiset RawPoint) (m : Multiset RawPoint) : Prop :=
  ∃ f, (∀ c ∈ L, stored f c = σ c) ∧ m = ↑((b.sampleGrid q).movedUp (tagged (L.map f)))

/-- What `grid_sample` promotes are the points that move up. -/
lemma OctreeBuilder.promoted_perm (b : OctreeBuilder F) (f : VoxelKey → List RawPoint)
    (q : VoxelKey) (L : List VoxelKey) :
    (b.promoted f q L).Perm ((b.sampleGrid q).movedUp (tagged (L.map f))) :=
  (b.sampleGrid q).sample_perm_movedUp fun t ht => by
    have hlt := mem_tagged_lt ht
    rwa [List.length_map] at hlt

/-- An empty parent comes to hold what is handed up. -/
lemma GroupSampled.handsUp {b : OctreeBuilder F} {f f' : VoxelKey → List RawPoint} {q : VoxelKey}
    {L : List VoxelKey} (h : GroupSampled b f f' q L) (h0 : stored f q = 0) :
    b.HandsUp q L (stored f) (stored f' q) := by
  refine ⟨f, fun _ _ => rfl, ?_⟩
  rw [← Multiset.coe_eq_coe.mpr (b.promoted_perm f q L), stored, h.parent]
  split_ifs with hnil
  · rw [hnil]
    exact h0
  · rfl

namespace Grouped

variable {d : ℕ} {present : VoxelKey → Prop} {P : List (VoxelKey × List VoxelKey)}

/-- A parent has one group. -/
lemma eq_of_mem (h : Grouped d present P) {q : VoxelKey} {L L' : List VoxelKey}
    (hL : (q, L) ∈ P) (hL' : (q, L') ∈ P) : L = L' :=
  congrArg Prod.snd (List.inj_on_of_nodup_map h.nodup hL hL' rfl)

/-- The places a group may change: its parent and its children. -/
def footprint (t : VoxelKey × List VoxelKey) (k : VoxelKey) : Prop := k = t.1 ∨ k ∈ t.2

/-- Different groups have no place in common. -/
lemma pairwise_apart (h : Grouped d present P) :
    P.Pairwise fun t u => ∀ k, footprint t k → ¬ footprint u k := by
  have hne : P.Pairwise fun t u => t.1 ≠ u.1 := List.pairwise_map.mp h.nodup
  refine hne.imp_of_mem fun {t u} ht hu hq k hkt hku => ?_
  obtain ⟨q, L⟩ := t
  obtain ⟨q', L'⟩ := u
  have hl := h.level q L ht
  have hl' := h.level q' L' hu
  rcases hkt with rfl | hkt
  · rcases hku with rfl | hku
    · exact hq rfl
    · have := VoxelKey.level_of_isChild (((h.children q' L' hu).2 k).mp hku).1
      omega
  · have hc := ((h.children q L ht).2 k |>.mp hkt).1
    rcases hku with rfl | hku
    · have := VoxelKey.level_of_isChild hc
      omega
    · have hc' := ((h.children q' L' hu).2 k |>.mp hku).1
      exact hq (hc.2.symm.trans hc'.2)

/-- Sampling every group of a level makes one level pass. -/
lemma levelPass (h : Grouped d present P) {b : OctreeBuilder F} {f f' : VoxelKey → List RawPoint}
    (hsampled : ∀ q L, (q, L) ∈ P → GroupSampled b f f' q L)
    (hframe : ∀ k, (∀ t ∈ P, ¬ footprint t k) → f' k = f k) :
    LevelPass b.HandsUp maxLeafPoints d present (stored f) (stored f') where
  sampled q hq := by
    by_cases hmem : ∃ L, (q, L) ∈ P
    · obtain ⟨L, hL⟩ := hmem
      obtain ⟨hnodup, hchild⟩ := h.children q L hL
      have hgroup := hsampled q L hL
      refine ⟨L, hchild, hgroup.sampleStep (fun c hc => ((hchild c).mp hc).1) hnodup
        fun c hc hcL => hframe c ?_, fun _ => hgroup.handsUp⟩
      rintro ⟨q', L'⟩ ht (rfl | hcL')
      · have := VoxelKey.level_of_isChild hc
        have := h.level _ _ ht
        have : q.level = d := hq
        omega
      · have hc' := ((h.children q' L' ht).2 c |>.mp hcL').1
        obtain rfl : q = q' := hc.2.symm.trans hc'.2
        exact hcL (h.eq_of_mem ht hL ▸ hcL')
    · have hnone : ∀ c, IsChild q c → ¬ present c := fun c hc hp =>
        hmem (h.complete q c hq hc hp)
      have hsame : ∀ c, IsChild q c → f' c = f c := by
        intro c hc
        apply hframe c
        rintro ⟨q', L'⟩ ht (rfl | hcL')
        · have := VoxelKey.level_of_isChild hc
          have := h.level _ _ ht
          have : q.level = d := hq
          omega
        · exact hnone c hc ((h.children q' L' ht).2 c |>.mp hcL').2
      have hself : f' q = f q := by
        apply hframe q
        rintro ⟨q', L'⟩ ht (rfl | hqL')
        · exact hmem ⟨L', ht⟩
        · have := VoxelKey.level_of_isChild ((h.children q' L' ht).2 q |>.mp hqL').1
          have := h.level _ _ ht
          have : q.level = d := hq
          omega
      refine ⟨[], fun c => ⟨fun hc => absurd hc List.not_mem_nil, fun hc => ?_⟩, ⟨by simp,
        List.nodup_nil, fun c hc _ => congrArg _ (hsame c hc), fun _ => ⟨congrArg _ hself, by simp⟩,
        fun h0 => absurd rfl h0, fun hlt => ?_⟩, fun hne => absurd rfl hne⟩
      · exact absurd hc.2 (hnone c hc.1)
      · simp at hlt
  other k hk hk1 := by
    refine congrArg _ (hframe k ?_)
    rintro ⟨q, L⟩ ht (rfl | hkL)
    · exact hk (h.level _ _ ht)
    · have hl := ((h.children q L ht).2 k |>.mp hkL).1.1
      rw [VoxelKey.level_eq q, h.level q L ht] at hl
      exact hk1 hl

end Grouped

/-! ## Sampling calls -/

/-- One call of `grid_sample` in a run: the parent, its gathered children and the nodes before. -/
structure SampleCall where
  parent : VoxelKey
  children : List VoxelKey
  before : VoxelKey → List RawPoint

/-- The call hands at least one point to its parent. -/
def SampleCall.Promotes (c : SampleCall) (b : OctreeBuilder F) : Prop :=
  b.promoted c.before c.parent c.children ≠ []

/-- The calls that sample the groups of a level. -/
def groupCalls (f : VoxelKey → List RawPoint) (P : List (VoxelKey × List VoxelKey)) :
    List SampleCall :=
  P.map fun t => ⟨t.1, t.2, f⟩

/-! ## Grouping a list of keys -/

lemma get_groupByParent (keys : List VoxelKey) (q : VoxelKey) :
    (groupByParent keys).get q = keys.filter fun k => k.parent = some q :=
  BucketMap.get_groupBy VoxelKey.parent keys q

/-- The groups of a duplicate-free list of keys at one level, in any order. -/
lemma grouped_groupByParent {d : ℕ} {keys : List VoxelKey} (hnodup : keys.Nodup)
    (hlevel : ∀ k ∈ keys, k.level = d + 1) {P : List (VoxelKey × List VoxelKey)}
    (hP : P.Perm (groupByParent keys).pairs) : Grouped d (· ∈ keys) P := by
  have hmem : ∀ {q L}, (q, L) ∈ P ↔ q ∈ groupByParent keys ∧
      keys.filter (fun k => k.parent = some q) = L := fun {q L} => by
    rw [hP.mem_iff, BucketMap.mem_pairs, get_groupByParent]
  refine ⟨?_, fun q L hq => ?_, fun q L hq => ?_, fun q c _ hc hck => ?_, fun q L hq => ?_⟩
  · rw [(hP.map Prod.fst).nodup_iff, BucketMap.map_fst_pairs]
    exact AList.keys_nodup _
  · obtain ⟨k, hk, hp⟩ := BucketMap.mem_groupBy (hmem.mp hq).1
    have := VoxelKey.level_of_parent hp
    have := hlevel k hk
    omega
  · obtain ⟨-, rfl⟩ := hmem.mp hq
    refine ⟨hnodup.filter _, fun c => ?_⟩
    rw [List.mem_filter, decide_eq_true_eq, VoxelKey.isChild_iff]
    exact And.comm
  · refine ⟨_, hmem.mpr ⟨?_, rfl⟩⟩
    refine BucketMap.mem_of_get_ne_nil fun hnil => ?_
    rw [get_groupByParent] at hnil
    have : c ∈ keys.filter fun k => k.parent = some q :=
      List.mem_filter.mpr ⟨hck, by simpa using VoxelKey.isChild_iff.mp hc⟩
    rw [hnil] at this
    cases this
  · obtain ⟨hg, rfl⟩ := hmem.mp hq
    obtain ⟨k, hk, hp⟩ := BucketMap.mem_groupBy hg
    exact List.ne_nil_of_mem (List.mem_filter.mpr ⟨hk, by simpa using hp⟩)

end CopcConverter
