import CopcConverter.Octree.Gaps

/-!
# Coincident points

Points at one place cannot be told apart by any descent, so one too many of them for a leaf are
split down to the depth cap.  On the way up all of them lie in one cell of every grid, so the parent
of their leaf takes one point and leaves the others; and every further parent takes over what the
one below had, since a single point is few enough to move up.

So the points end up in the deep leaf and at the root of the subtree, with empty nodes in between:
the collapse of few points into the parent empties the child even when there are points below it.
The loop is followed with an invariant, `Rising`, from the level above the leaf to the root, and the
build of 100001 points in a single chunk is carried out over the keys of the source.
-/

namespace CopcConverter

open LevelTree TaggedSplit

variable {F : Type} [FloatArith F] {b : OctreeBuilder F}

/-! ## Sampling one child -/

/-- The first point of the partition is accepted, and accepted points stay accepted. -/
lemma Partition.parentPts_ne_nil (gridIdx : RawPoint → ℕ) {pts : List (ℕ × RawPoint)}
    (hpts : pts ≠ []) (n : ℕ) (remaining : List (List RawPoint)) :
    (pts.foldl (Partition.step gridIdx) ⟨Array.replicate n 0, [], remaining⟩).parentPts ≠ [] := by
  have hkeep : ∀ (pts : List (ℕ × RawPoint)) (s : Partition), s.parentPts ≠ [] →
      (pts.foldl (Partition.step gridIdx) s).parentPts ≠ [] := by
    intro pts
    induction pts with
    | nil => exact fun _ h => h
    | cons t pts ih =>
      intro s h
      refine ih _ ?_
      unfold Partition.step
      simp only
      split_ifs
      · exact List.append_ne_nil_of_left_ne_nil h _
      · exact h
  obtain ⟨t, pts, rfl⟩ := List.exists_cons_of_ne_nil hpts
  refine hkeep pts _ ?_
  have hzero : ∀ i, (Array.replicate n (0 : UInt64)).getD i 0 = 0 := fun i => by
    rw [Array.getD_eq_getD_getElem?, Array.getElem?_replicate]
    split_ifs <;> rfl
  unfold Partition.step
  simp only [hzero, UInt64.zero_and, if_true]
  simp

/-- A single child with too many points hands some of them to its parent. -/
lemma SampleGrid.sample_single (g : SampleGrid) {l : List RawPoint}
    (hl : maxLeafPoints < l.length) : (g.sample (tagged [l]) 1).1 ≠ [] := by
  have hlen : (tagged [l]).length = l.length := by
    rw [← List.length_map (f := Prod.snd), map_snd_tagged]
    simp
  unfold sample
  rw [if_neg, if_neg (by omega)]
  swap
  · intro hnil
    rw [List.isEmpty_iff.mp hnil] at hlen
    simp at hlen
    omega
  set pts := (tagged [l]).mergeSort fun s t => decide (g.mortonKey s.2 ≤ g.mortonKey t.2)
  have hperm : pts.Perm (tagged [l]) := List.mergeSort_perm _ _
  have hpts : pts ≠ [] := fun hnil => by
    rw [← hperm.length_eq, hnil] at hlen
    simp at hlen
    omega
  have htags : ∀ t ∈ pts, t.1 < 1 := fun t ht => mem_tagged_lt (hperm.mem_iff.mp ht)
  have hsplit := Partition.foldl_split g.gridIdx
    (s := ⟨Array.replicate ((gridCellsPerAxis * gridCellsPerAxis * gridCellsPerAxis).toNat / 64)
      0, [], List.replicate 1 []⟩) Split.nil htags
  have hacc := Partition.parentPts_ne_nil g.gridIdx hpts
    ((gridCellsPerAxis * gridCellsPerAxis * gridCellsPerAxis).toNat / 64) (List.replicate 1 [])
  rw [List.nil_append] at hsplit
  simp only [List.range_one, List.foldl_cons, List.foldl_nil]
  set s := pts.foldl (Partition.step g.gridIdx) _
  intro hnil
  rw [List.map_eq_nil_iff] at hnil
  unfold protect at hnil
  split_ifs at hnil with hempty
  · -- all points were accepted: more than one is left after giving one back
    cases hr : removeLast 0 s.parentPts with
    | none =>
      rw [hr] at hnil
      exact hacc hnil
    | some r =>
      rw [hr] at hnil
      have htotal := congrArg Multiset.card (hsplit.total htags)
      have hrem : s.remaining = [[]] := by
        have h1 := hsplit.length
        obtain ⟨x, hx⟩ := List.length_eq_one_iff.mp h1
        have hx0 := (Bool.and_eq_true _ _ ▸ hempty).2
        rw [hx] at hx0 ⊢
        simpa using hx0
      change r.2 = [] at hnil
      have hone := (removeLast_perm hr).length_eq
      rw [hnil] at hone
      rw [hrem] at htotal
      simp only [List.map_cons, List.map_nil, List.sum_cons, List.sum_nil, add_zero,
        Multiset.coe_nil, Multiset.coe_card, List.length_map] at htotal
      rw [hperm.length_eq, hlen] at htotal
      simp only [List.length_cons, List.length_nil] at hone
      unfold maxLeafPoints at hl
      omega
  · exact hacc hnil

/-! ## Rounds with a single node to gather -/

/-- A round over a level with a single node `c` samples `c` into its parent and changes nothing
else. -/
lemma OctreeBuilder.levelStep_single (b : OctreeBuilder F) (ord : IterOrder) {nodes : Nodes} {d : ℕ}
    {q c : VoxelKey} (hqc : IsChild q c) (hc : c ∈ nodes) (hd : q.level = d)
    (honly : ∀ k ∈ nodes, k.level = d + 1 → k = c) :
    GroupSampled b nodes.get (b.levelStep ord nodes d).get q [c] ∧
      ∀ k, k ≠ q → k ≠ c → stored (b.levelStep ord nodes d).get k = stored nodes.get k := by
  have hg := parentGroups_grouped ord nodes d
  have hchild : ∀ {q' c'}, q'.level = d → IsChild q' c' → c' ∈ nodes → c' = c := fun hq' hc' hm =>
    honly _ hm (by rw [VoxelKey.level_of_isChild hc', hq'])
  refine ⟨?_, fun k hkq hkc => ?_⟩
  · obtain ⟨L, hL⟩ := hg.complete q c hd hqc hc
    obtain ⟨hnodup, hmem⟩ := hg.children q L hL
    have hLc : L = [c] := List.perm_singleton.mp <|
      (List.perm_ext_iff_of_nodup hnodup (List.nodup_singleton c)).mpr fun c' => by
        rw [hmem, List.mem_singleton]
        exact ⟨fun h => hchild hd h.1 h.2, fun h => h ▸ ⟨hqc, hc⟩⟩
    exact hLc ▸ b.levelStep_group ord nodes d hL
  · have hpass := b.levelStep_levelPass ord nodes d
    by_cases hk : k.level = d
    · obtain ⟨L, hL, hstep, -⟩ := hpass.sampled k hk
      refine (hstep.idle (gathered_eq_zero.mpr fun c' hc' => ?_)).1
      obtain ⟨hkc', hm⟩ := (hL c').mp hc'
      have he := hchild hk hkc' hm
      exact absurd (hkc'.2.symm.trans (he ▸ hqc.2)) hkq
    · by_cases hk1 : k.level = d + 1
      · have hup : (up k).level = d := by
          have := level_up k
          rw [VoxelKey.level_eq, VoxelKey.level_eq] at this
          omega
        obtain ⟨L, hL, hstep, -⟩ := hpass.sampled (up k) hup
        have hpos : 0 < level k := by
          rw [VoxelKey.level_eq, hk1]
          exact Nat.succ_pos d
        refine hstep.kept k (isChild_up hpos) fun hkL => hkc ?_
        exact honly k ((hL k).mp hkL).2 hk1
      · exact hpass.other k hk hk1

/-- A round over a level without nodes changes nothing. -/
lemma OctreeBuilder.levelStep_idle (b : OctreeBuilder F) (ord : IterOrder) {nodes : Nodes} {d : ℕ}
    (hnone : ∀ k ∈ nodes, k.level ≠ d + 1) : b.levelStep ord nodes d = nodes := by
  have hnil : parentGroups ord nodes d = [] := by
    refine List.eq_nil_iff_forall_not_mem.mpr fun t ht => ?_
    have hg := parentGroups_grouped ord nodes d
    obtain ⟨c, hc⟩ := List.exists_mem_of_ne_nil _ (hg.inhabited t.1 t.2 ht)
    obtain ⟨htc, hm⟩ := ((hg.children t.1 t.2 ht).2 c).mp hc
    exact hnone c hm (by rw [VoxelKey.level_of_isChild htc, hg.level t.1 t.2 ht])
  unfold levelStep
  rw [hnil]
  rfl

/-! ## The way up -/

/-- Points at the place of `p` have come up to level `d`, where there are at most `maxLeafPoints` of
them; others have stayed in the leaf at level `m`, and there is nothing else. -/
structure Rising (b : OctreeBuilder F) (p : RawPoint) (m d : ℕ) (nodes : Nodes) : Prop where
  tight : nodes.Tight
  only : ∀ k ∈ nodes, k = b.keyOf p d ∨ k = b.keyOf p m
  risen : nodes.get (b.keyOf p d) ≠ [] ∧ (nodes.get (b.keyOf p d)).length ≤ maxLeafPoints
  stayed : nodes.get (b.keyOf p m) ≠ []

lemma isChild_keyOf (b : OctreeBuilder F) (p : RawPoint) (d : ℕ) :
    IsChild (b.keyOf p d) (b.keyOf p (d + 1)) := b.addressing.isChild_addr p d

lemma keyOf_ne (b : OctreeBuilder F) (p : RawPoint) {d m : ℕ} (h : d ≠ m) :
    b.keyOf p d ≠ b.keyOf p m := fun he => h (congrArg VoxelKey.level he)

/-- The risen points move up one level further. -/
lemma Rising.levelStep {p : RawPoint} {m d : ℕ} {nodes : Nodes} (h : Rising b p m (d + 1) nodes)
    (hm : d + 1 < m) (ord : IterOrder) : Rising b p m d (b.levelStep ord nodes d) := by
  have hmem : b.keyOf p (d + 1) ∈ nodes := BucketMap.mem_of_get_ne_nil h.risen.1
  obtain ⟨⟨hs, hparent⟩, hother⟩ := b.levelStep_single ord (isChild_keyOf b p d) hmem
    (show (b.keyOf p d).level = d from rfl) fun k hk hl => by
      rcases h.only k hk with rfl | rfl
      · rfl
      · exact absurd hl (Nat.ne_of_gt hm)
  have hall : [nodes.get (b.keyOf p (d + 1))].flatten = nodes.get (b.keyOf p (d + 1)) := by simp
  obtain ⟨hpromoted, hempty⟩ := hs.collapse (by
    rw [List.map_singleton, hall]
    exact h.risen.2)
  rw [List.map_singleton, hall] at hpromoted
  rw [hpromoted, if_neg h.risen.1] at hparent
  have hchild : (b.levelStep ord nodes d).get (b.keyOf p (d + 1)) = [] :=
    hempty _ (by simp)
  have hdeep : stored (b.levelStep ord nodes d).get (b.keyOf p m) =
      stored nodes.get (b.keyOf p m) :=
    hother _ (keyOf_ne b p (by omega)) (keyOf_ne b p (by omega))
  have htight := b.tight_levelStep ord d h.tight
  refine ⟨htight, fun k hk => ?_, by rw [hparent]; exact h.risen, fun hnil => ?_⟩
  · by_cases hkd : k = b.keyOf p d
    · exact Or.inl hkd
    · refine Or.inr (Or.resolve_left (h.only k ?_) fun he => htight k hk (he ▸ hchild))
      have hne : k ≠ b.keyOf p (d + 1) := fun he => htight k hk (he ▸ hchild)
      refine BucketMap.mem_of_get_ne_nil fun hnil => htight k hk ?_
      exact stored_eq_zero.mp ((hother k hkd hne).trans (stored_eq_zero.mpr hnil))
  · exact h.stayed (stored_eq_zero.mp (hdeep.symm.trans (stored_eq_zero.mpr hnil)))

/-- The risen points come up to the last level of the loop. -/
lemma Rising.loop {p : RawPoint} {m min n : ℕ} {nodes : Nodes} (h : Rising b p m (min + n) nodes)
    (hm : min + n < m) (ord : IterOrder) :
    Rising b p m min (b.bottomUpLoop ord min n nodes) := by
  induction n generalizing nodes with
  | zero => exact h
  | succ n ih => exact ih (h.levelStep hm _) (Nat.lt_of_succ_lt hm)

/-- One point too many for a leaf at one place: the first parent takes some, not all. -/
lemma rising_first (ord : IterOrder) {p : RawPoint} {d : ℕ} {nodes : Nodes} (htight : nodes.Tight)
    (honly : ∀ k ∈ nodes, k = b.keyOf p (d + 1))
    (hlen : (nodes.get (b.keyOf p (d + 1))).length = maxLeafPoints + 1) :
    Rising b p (d + 1) d (b.levelStep ord nodes d) := by
  have hne : nodes.get (b.keyOf p (d + 1)) ≠ [] := fun hnil => by
    rw [hnil] at hlen
    cases hlen
  obtain ⟨⟨hs, hparent⟩, hother⟩ := b.levelStep_single ord (isChild_keyOf b p d)
    (BucketMap.mem_of_get_ne_nil hne) (show (b.keyOf p d).level = d from rfl)
    fun k hk _ => honly k hk
  have hpromoted : b.promoted nodes.get (b.keyOf p d) [b.keyOf p (d + 1)] ≠ [] :=
    SampleGrid.sample_single _ (hlen.symm ▸ Nat.lt_succ_self _)
  rw [if_neg hpromoted] at hparent
  have hstay : (b.levelStep ord nodes d).get (b.keyOf p (d + 1)) ≠ [] :=
    (hs.kept (by simp [hlen]) 0 (by simp)).2 (by simpa using hne)
  have htotal := congrArg Multiset.card hs.total
  simp only [List.map_cons, List.map_nil, List.sum_cons, List.sum_nil, add_zero,
    Multiset.card_add, Multiset.coe_card, List.flatten_cons, List.flatten_nil, List.append_nil,
    hlen] at htotal
  have hstayLen := List.length_pos_iff.mpr hstay
  refine ⟨b.tight_levelStep ord d htight, fun k hk => ?_, ?_, hstay⟩
  · rcases b.mem_levelStep ord nodes d hk with hk | ⟨hkl, c, hkc, hc⟩
    · exact Or.inr (honly k hk)
    · obtain rfl := honly c hc
      exact Or.inl (hkc.2.symm.trans (isChild_keyOf b p d).2)
  · rw [hparent]
    exact ⟨hpromoted, by omega⟩

/-- The loop over the levels above a single overfull leaf. -/
lemma rising_loop {p : RawPoint} {m min n : ℕ} {nodes : Nodes} (htight : nodes.Tight)
    (honly : ∀ k ∈ nodes, k = b.keyOf p m)
    (hlen : (nodes.get (b.keyOf p m)).length = maxLeafPoints + 1) (hmin : min < m)
    (hn : m ≤ min + n) (ord : IterOrder) : Rising b p m min (b.bottomUpLoop ord min n nodes) := by
  induction n with
  | zero => omega
  | succ n ih =>
    rw [OctreeBuilder.bottomUpLoop]
    rcases Nat.lt_or_ge (min + n) m with hlt | hge
    · obtain rfl : m = min + n + 1 := by omega
      exact (rising_first _ htight honly hlen).loop (Nat.lt_succ_self _) ord
    · rw [b.levelStep_idle _ fun k hk hl => ?_]
      · exact ih hge
      · rw [honly k hk] at hl
        have : m = min + n + 1 := hl
        omega

/-! ## Subtrees of coincident points -/

section Subtree

variable {p : RawPoint} {n : ℕ}

lemma inside_replicate {k : VoxelKey} (hk : b.addressing.Inside p k) :
    inside b.addressing (↑(List.replicate n p) : Multiset RawPoint) k = ↑(List.replicate n p) := by
  rw [inside_eq_filter]
  refine Multiset.filter_eq_self.mpr fun x hx => ?_
  rw [List.eq_of_mem_replicate (Multiset.mem_coe.mp hx)]
  exact hk

/-- Splitting coincident points, too many for a leaf, ends with a single leaf at the depth cap or
below. -/
lemma subdivide_coincident (ord : IterOrder) {root : VoxelKey} (hn : maxLeafPoints < n)
    (hroot : b.addressing.Inside p root) {s : Nodes × ℕ}
    (h : b.Leaves (↑(List.replicate n p)) root s) :
    ∃ m, chunkDepthCap ≤ m ∧
      (∀ k ∈ (b.subdivide ord (chunkDepthCap + 1) s).1, k = b.keyOf p m) ∧
      (BucketMap.get (b.subdivide ord (chunkDepthCap + 1) s).1 (b.keyOf p m)).length = n ∧
      m ≤ (b.subdivide ord (chunkDepthCap + 1) s).2 := by
  have hs := h.subdivide ord (chunkDepthCap + 1)
  have hsettled := h.subdivide_settled ord (Nat.lt_succ_self chunkDepthCap)
  set leaves := (b.subdivide ord (chunkDepthCap + 1) s).1
  -- a leaf that holds a point holds all of them
  have hfull : ∀ k ∈ leaves, b.addressing.Inside p k → (BucketMap.get leaves k).length = n :=
    fun k hk hin => by
      have he := congrArg Multiset.card (hs.cut.exact k hk)
      rwa [inside_replicate hin, Multiset.coe_card, Multiset.coe_card,
        List.length_replicate] at he
  have hin : ∀ k ∈ leaves, b.addressing.Inside p k := fun k hk => by
    obtain ⟨x, hx⟩ := List.exists_mem_of_ne_nil _ (hs.cut.tight k hk)
    have hx' := mem_inside.mp (hs.cut.exact k hk ▸ Multiset.mem_coe.mpr hx)
    rw [← List.eq_of_mem_replicate (Multiset.mem_coe.mp hx'.1)]
    exact hx'.2
  have hmem : p ∈ (↑(List.replicate n p) : Multiset RawPoint) :=
    Multiset.mem_coe.mpr (List.mem_replicate.mpr ⟨by omega, rfl⟩)
  obtain ⟨k₀, hk₀, -⟩ := hs.cut.covers p hmem hroot
  obtain ⟨k, ⟨hk, -⟩, hdeep⟩ := hsettled.resolve_left fun hnone =>
    hnone k₀ ⟨hk₀, (hfull k₀ hk₀ (hin k₀ hk₀)).symm ▸ hn⟩
  have hkp : b.keyOf p k.level = k := hin k hk
  refine ⟨k.level, hdeep, fun j hj => ?_, hkp.symm ▸ hfull k hk (hin k hk), hs.depth k hk⟩
  rw [hkp]
  rcases Nat.le_total j.level k.level with hle | hle
  · exact hs.cut.antichain j k hj hk ((hin j hj).isAncestor (hin k hk) hle)
  · exact (hs.cut.antichain k j hk hj ((hin k hk).isAncestor (hin j hj) hle)).symm

/-- A subtree build of coincident points, one too many for a leaf, stores points in a deep leaf and
at the root of the subtree, and none in between. -/
theorem buildSubtree_coincident (b : OctreeBuilder F) (ord : IterOrder) (p : RawPoint) {l : ℕ}
    (hl : l + 1 < chunkDepthCap) (hn : n = maxLeafPoints + 1) (store : Store)
    (hempty : ∀ k, IsAncestor (b.keyOf p l) k → store k = []) (estPoints : ℕ) :
    ∃ m, chunkDepthCap ≤ m ∧ ∀ d, l ≤ d →
      ((b.buildSubtree ord store (b.keyOf p l) (List.replicate n p)
        estPoints).1 (b.keyOf p d) ≠ [] ↔ d = l ∨ d = m) := by
  have hroot : b.addressing.Inside p (b.keyOf p l) := b.addressing.inside_addr p l
  set s : Nodes × ℕ := (b.leavesAt (List.replicate n p)
    (l + chunkLocalExtraLevels F estPoints), l + chunkLocalExtraLevels F estPoints) with hs
  have hleaves : b.Leaves (↑(List.replicate n p)) (b.keyOf p l) s :=
    OctreeBuilder.leaves_leavesAt (inside_replicate hroot).symm (Nat.le_add_right _ _)
  obtain ⟨m, hcap, honly, hlen, hdepth⟩ := subdivide_coincident (ord.sub 0)
    (hn ▸ Nat.lt_succ_self maxLeafPoints) hroot hleaves
  have htight := (hleaves.subdivide (ord.sub 0) (chunkDepthCap + 1)).cut.tight
  have hsome : ¬ s.1.keys.isEmpty := fun hnil => by
    obtain ⟨k, hk, -⟩ := hleaves.cut.covers p (Multiset.mem_coe.mpr
      (List.mem_replicate.mpr ⟨hn ▸ Nat.succ_ne_zero _, rfl⟩)) hroot
    rw [AList.mem_keys, List.isEmpty_iff.mp hnil] at hk
    cases hk
  set depth := (b.subdivide (ord.sub 0) (chunkDepthCap + 1) s).2
  have hrise : Rising b p m l (b.bottomUpLoop ((ord.sub 1).sub 0) l (depth - l)
      (b.subdivide (ord.sub 0) (chunkDepthCap + 1) s).1) :=
    rising_loop htight honly (hlen.trans hn) (by omega) (by omega) ((ord.sub 1).sub 0)
  have hstore : ∀ d, l ≤ d → (b.buildSubtree ord store (b.keyOf p l)
      (List.replicate n p) estPoints).1 (b.keyOf p d) =
        BucketMap.get (b.bottomUpLoop ((ord.sub 1).sub 0) l (depth - l)
          (b.subdivide (ord.sub 0) (chunkDepthCap + 1) s).1) (b.keyOf p d) := fun d hd => by
    rw [b.buildSubtree_eq ord store (b.keyOf p l) hsome]
    exact b.bottomUpLevels_get (ord.sub 1) _ depth l
      (hempty _ (b.addressing.isAncestor_addr p hd))
  refine ⟨m, hcap, fun d hd => ?_⟩
  rw [hstore d hd]
  constructor
  · intro hne
    rcases hrise.only _ (BucketMap.mem_of_get_ne_nil hne) with he | he
    · exact Or.inl (congrArg VoxelKey.level he)
    · exact Or.inr (congrArg VoxelKey.level he)
  · rintro (rfl | rfl)
    · exact hrise.risen.1
    · exact hrise.stayed

end Subtree

/-! ## A build with a gap -/

/-- One cell with one point too many for a leaf. -/
def coincidentGrid (i : ℕ) : UInt32 := if i = 7 then 100001 else 0

/-- All of the points are at one place. -/
def coincidentFiles (i : ℕ) : List RawPoint :=
  if i = 0 then List.replicate 100001 (pointAt 1 1 1) else []

/-- The build of 100001 points at one place leaves empty nodes between the global root, which holds
points, and a leaf that does. -/
theorem interleavedNodeMap32_coincident_gap :
    Distributed unitBuilder (planOf coincidentGrid 1 1000000).chunks coincidentFiles
        ↑(coincidentFiles 0) ∧
      ∃ store nodes, unitBuilder.interleavedNodeMap32 .sequential .listed (2 ^ 30) 1
        (some (planOf coincidentGrid 1 1000000)) none coincidentFiles = .ok (store, nodes) ∧
          ¬ GapFree nodes := by
  have hplan : planOf coincidentGrid 1 1000000 = ⟨2, 1, [⟨0, 0, 0, 0, 100001⟩]⟩ := rfl
  have hfile : coincidentFiles 0 = List.replicate 100001 (pointAt 1 1 1) := if_pos rfl
  have hd : Distributed unitBuilder (planOf coincidentGrid 1 1000000).chunks coincidentFiles
      ↑(coincidentFiles 0) := by
    refine ⟨fun i c hc p _ => ?_, ?_⟩
    · rw [hplan] at hc
      obtain ⟨hi, rfl⟩ := List.getElem?_eq_some_iff.mp hc
      obtain rfl : i = 0 := by simpa using hi
      rfl
    · rw [hplan]
      exact add_zero _
  refine ⟨hd, ?_⟩
  have hfits : saturatingMul (coincidentFiles 0).length perChunkBytesPerPointBuild ≤
      (buildConcurrencyAndBudget ℚ (2 ^ 30) 1).2 := by
    rw [hfile, List.length_replicate, budget_gib]
    decide
  obtain ⟨nodes, hok⟩ := unitBuilder.buildNodeMap_single .listed 2 1 100001 hfits
  rw [← hplan] at hok
  have hrange : unitBuilder.LeavesInRange (2 ^ 30) 1 (planOf coincidentGrid 1 1000000) none
      coincidentFiles := by
    refine OctreeBuilder.leavesInRange_of_shallow fun chunk hchunk => ?_
    rw [hplan] at hchunk
    rw [List.mem_singleton.mp hchunk]
    exact Nat.zero_le 6
  refine ⟨_, nodes, (OctreeBuilder.interleavedNodeMap32_iff (by norm_num) hd.routed hrange
    .sequential .listed (_, nodes)).mpr hok, fun hgap => ?_⟩
  obtain ⟨-, hout, hlist⟩ := OctreeBuilder.buildNodeMap_conserved hd hok
  have hless := (hlist.gapFree_iff hout).mp hgap
  rw [hfile, ← unitBuilder.keyOf_zero (pointAt 1 1 1)] at hless
  obtain ⟨m, hm, hheld⟩ := buildSubtree_coincident unitBuilder ((IterOrder.listed.sub 1).sub 0)
    (pointAt 1 1 1) (l := 0) (n := 100001) (by decide) rfl (fun _ => []) (fun _ _ => rfl)
    (List.replicate 100001 (pointAt 1 1 1)).length
  -- the parent of the deep leaf lies between the two nodes with points
  obtain ⟨d, rfl⟩ : ∃ d, m = d + 2 := ⟨m - 2, by unfold chunkDepthCap at hm; omega⟩
  have hne : ∀ e, e = 0 ∨ e = d + 2 → stored (unitBuilder.buildSubtree
      ((IterOrder.listed.sub 1).sub 0) (fun _ => []) (unitBuilder.keyOf (pointAt 1 1 1) 0)
      (List.replicate 100001 (pointAt 1 1 1))
      (List.replicate 100001 (pointAt 1 1 1)).length).1 (unitBuilder.keyOf (pointAt 1 1 1) e) ≠ 0 :=
    fun e he h0 => (hheld e (Nat.zero_le _)).mpr he (stored_eq_zero.mp h0)
  have hbetween := hless (unitBuilder.keyOf (pointAt 1 1 1) 0)
    (unitBuilder.keyOf (pointAt 1 1 1) (d + 1)) (unitBuilder.keyOf (pointAt 1 1 1) (d + 2))
    (IsAncestor.refl _)
    ((unitBuilder.addressing.isAncestor_addr _ (Nat.zero_le _)).proper (keyOf_ne _ _ (by omega)))
    (isChild_keyOf _ _ _).isProperAncestor (hne 0 (Or.inl rfl)) (hne (d + 2) (Or.inr rfl))
  rcases (hheld (d + 1) (Nat.zero_le _)).mp fun hnil => hbetween (stored_eq_zero.mpr hnil) with
    h | h <;> omega

end CopcConverter
