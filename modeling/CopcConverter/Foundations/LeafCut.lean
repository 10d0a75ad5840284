import CopcConverter.Foundations.BucketMap
import CopcConverter.Foundations.Pyramid

/-!
# Leaves that cut a subtree

A map from nodes to points whose keys cut the subtree of a node: every key is below the node, no key
lies above another, every point of the subtree is in the voxel of a key, and every bucket holds
exactly the points of its voxel.  It is the state of a loop that refines a tree at its leaves.

Distributing points over one level makes such a cut, and replacing a leaf by its children keeps it
one, so leaves may be split in any order and as often as one likes.  A cut determines what is stored
where: the bucket of a key is the points inside it, two keys that hold a common point are equal, and
all buckets together are the points of the subtree.
-/

namespace LevelTree

variable {κ P : Type*} [LevelTree κ] [DecidableEq κ] {A : Addressing P κ} {pts : Multiset P}
  {top : κ} {m : BucketMap κ P}

/-- The keys of `m` cut the subtree of `top`, and every bucket holds the points of its voxel. -/
structure LeafCut (A : Addressing P κ) (pts : Multiset P) (top : κ) (m : BucketMap κ P) : Prop where
  below : ∀ k ∈ m, IsAncestor top k
  antichain : ∀ a b, a ∈ m → b ∈ m → IsAncestor a b → a = b
  covers : ∀ p ∈ pts, A.Inside p top → ∃ k ∈ m, A.Inside p k
  exact : ∀ k ∈ m, (↑(m.get k) : Multiset P) = inside A pts k
  tight : m.Tight

/-- Replace the leaf `k` by its children. -/
def splitLeaf (A : Addressing P κ) (m : BucketMap κ P) (k : κ) : BucketMap κ P :=
  BucketMap.pushAll (fun p => A.addr p (level k + 1)) (m.erase k) (m.get k)

omit [DecidableEq κ] in
/-- The points of a voxel that lie in a smaller one. -/
lemma filter_inside (A : Addressing P κ) (pts : Multiset P) {k c : κ} (h : IsAncestor k c)
    [DecidablePred fun p => A.addr p (level c) = c] :
    (inside A pts k).filter (fun p => A.addr p (level c) = c) = inside A pts c := by
  classical
  unfold inside
  rw [Multiset.filter_filter]
  refine Multiset.filter_congr fun p _ => ⟨fun hp => hp.1, fun hp => ⟨hp, ?_⟩⟩
  exact Addressing.Inside.mono hp h

namespace LeafCut

/-- Distributing the points of a subtree over one level. -/
lemma ofLevel {l : List P} (hl : (↑l : Multiset P) = inside A pts top) {d : ℕ}
    (hd : level top ≤ d) : LeafCut A pts top (BucketMap.pushAll (fun p => A.addr p d) ∅ l) := by
  have hmem : ∀ {k}, k ∈ BucketMap.pushAll (fun p => A.addr p d) ∅ l ↔ ∃ p ∈ l, A.addr p d = k :=
    fun {k} => by
      rw [BucketMap.mem_pushAll]
      exact or_iff_right (AList.notMem_empty k)
  have hin : ∀ p, p ∈ l ↔ p ∈ pts ∧ A.Inside p top := fun p => by
    rw [← mem_inside, ← hl, Multiset.mem_coe]
  have hbelow : ∀ p ∈ l, IsAncestor top (A.addr p d) := fun p hp => by
    have := A.isAncestor_addr p hd
    rwa [show A.addr p (level top) = top from ((hin p).mp hp).2] at this
  refine ⟨fun k hk => ?_, fun a c ha hc hac => ?_, fun p hp htop => ?_, fun k hk => ?_,
    BucketMap.Tight.empty.pushAll _ _⟩
  · obtain ⟨p, hp, rfl⟩ := hmem.mp hk
    exact hbelow p hp
  · obtain ⟨p, -, rfl⟩ := hmem.mp ha
    obtain ⟨q, -, rfl⟩ := hmem.mp hc
    exact hac.eq_of_level (by simp)
  · exact ⟨A.addr p d, hmem.mpr ⟨p, (hin p).mpr ⟨hp, htop⟩, rfl⟩, A.inside_addr p d⟩
  · obtain ⟨p, hp, rfl⟩ := hmem.mp hk
    rw [BucketMap.get_pushAll, BucketMap.get_empty, List.nil_append, ← Multiset.filter_coe, hl]
    have hfilter := filter_inside A pts (hbelow p hp)
    rwa [A.level_addr] at hfilter

/-- Replacing a leaf by its children. -/
lemma split (h : LeafCut A pts top m) {k : κ} (hk : k ∈ m) :
    LeafCut A pts top (splitLeaf A m k) := by
  have hin : ∀ p, p ∈ m.get k ↔ p ∈ pts ∧ A.Inside p k := fun p => by
    rw [← mem_inside, ← h.exact k hk, Multiset.mem_coe]
  have hchild : ∀ p ∈ m.get k, IsChild k (A.addr p (level k + 1)) := fun p hp =>
    ((hin p).mp hp).2.child
  have hmem : ∀ {j}, j ∈ splitLeaf A m k ↔
      (j ≠ k ∧ j ∈ m) ∨ ∃ p ∈ m.get k, A.addr p (level k + 1) = j := fun {j} => by
    rw [splitLeaf, BucketMap.mem_pushAll, AList.mem_erase]
  -- no old leaf is a child of the leaf that is split, nor below such a child
  have hfar : ∀ {p j}, p ∈ m.get k → j ∈ m → j ≠ k → ¬ IsAncestor (A.addr p (level k + 1)) j :=
    fun hp hj hne hanc =>
      hne (h.antichain k _ hk hj ((hchild _ hp).isProperAncestor.isAncestor.trans hanc)).symm
  refine ⟨fun j hj => ?_, fun a c ha hc hac => ?_, fun p hp htop => ?_, fun j hj => ?_,
    BucketMap.Tight.pushAll (h.tight.erase k) _ _⟩
  · rcases hmem.mp hj with ⟨-, hj⟩ | ⟨p, hp, rfl⟩
    · exact h.below j hj
    · exact (h.below k hk).trans (hchild p hp).isProperAncestor.isAncestor
  · rcases hmem.mp ha with ⟨hak, ha⟩ | ⟨p, hp, rfl⟩
    · rcases hmem.mp hc with ⟨-, hc⟩ | ⟨q, hq, rfl⟩
      · exact h.antichain a c ha hc hac
      · -- an old leaf above a new one is above or at the leaf that was split
        rcases hac.eq_or_proper with he | hlt
        · exact he
        · have hka : IsAncestor a k := by
            have hlk := (hchild q hq).1
            have hlt' := hlt.1
            exact hlt.isAncestor.of_level_le (hchild q hq).isProperAncestor.isAncestor (by omega)
          exact absurd (h.antichain a k ha hk hka) hak
    · rcases hmem.mp hc with ⟨hck, hc⟩ | ⟨q, hq, rfl⟩
      · exact absurd hac (hfar hp hc hck)
      · exact (hchild p hp).eq_of_isAncestor (hchild q hq) hac
  · obtain ⟨j, hj, hpj⟩ := h.covers p hp htop
    by_cases hjk : j = k
    · subst hjk
      exact ⟨A.addr p (level j + 1), hmem.mpr (Or.inr ⟨p, (hin p).mpr ⟨hp, hpj⟩, rfl⟩),
        A.inside_addr p _⟩
    · exact ⟨j, hmem.mpr (Or.inl ⟨hjk, hj⟩), hpj⟩
  · rw [splitLeaf, BucketMap.get_pushAll]
    rcases hmem.mp hj with ⟨hjk, hj⟩ | ⟨p, hp, rfl⟩
    · have hnone : ((m.get k).filter fun p => A.addr p (level k + 1) = j) = [] := by
        refine List.filter_eq_nil_iff.mpr fun p hp he => ?_
        rw [decide_eq_true_eq] at he
        exact hfar hp hj hjk (he ▸ IsAncestor.refl _)
      rw [hnone, List.append_nil, BucketMap.get_erase, if_neg hjk, h.exact j hj]
    · have hold : BucketMap.get (m.erase k) (A.addr p (level k + 1)) = [] := by
        rw [BucketMap.get_erase]
        split_ifs with he
        · rfl
        · by_contra hne
          exact hfar hp (BucketMap.mem_of_get_ne_nil hne) he (IsAncestor.refl _)
      have hfilter := filter_inside A pts
        (hchild p hp).isProperAncestor.isAncestor
      rw [hold, List.nil_append, ← Multiset.filter_coe, h.exact k hk]
      rwa [A.level_addr] at hfilter

/-- A cut is a set of finished roots to start a walk from, when its keys may be leaves and the walk
may take steps above them. -/
lemma roots {cap : ℕ} {HandsUp : κ → List κ → (κ → Multiset P) → Multiset P → Prop}
    {W : WalkRules κ} (h : LeafCut A pts top m) (I : PyramidInvariant A cap pts HandsUp W)
    (hleaf : ∀ k ∈ m, W.Leaf k)
    (hinner : ∀ q, IsAncestor top q → inside A pts q ≠ 0 → (∀ k ∈ m, ¬ IsAncestor k q) →
      W.Inner q) :
    Roots I top (· ∈ m) fun k => (↑(m.get k) : Multiset P) where
  below := h.below
  antichain a c ha hc := h.antichain a c ha hc
  covers := h.covers
  supported k _ hne := by
    refine ⟨k, BucketMap.mem_of_get_ne_nil fun hnil => hne ?_, IsAncestor.refl k⟩
    simp [hnil]
  holds r hr := by
    refine I.leaf (fun _ => hleaf r hr) (h.exact r hr) fun k hk => ?_
    by_contra hne
    have hmem : k ∈ m := BucketMap.mem_of_get_ne_nil fun hnil => hne (by simp [hnil])
    exact hk.1.ne (congrArg level (h.antichain r k hr hmem hk.isAncestor))
  inner := hinner

/-- A point is in the voxel of one leaf only. -/
lemma eq_of_inside (h : LeafCut A pts top m) {a c : κ} (ha : a ∈ m) (hc : c ∈ m) {p : P}
    (hpa : A.Inside p a) (hpc : A.Inside p c) : a = c := by
  rcases le_total (level a) (level c) with hle | hle
  · exact h.antichain a c ha hc (hpa.isAncestor hpc hle)
  · exact (h.antichain c a hc ha (hpc.isAncestor hpa hle)).symm

/-- The leaves together hold exactly the points of the subtree. -/
lemma contents (h : LeafCut A pts top m) :
    (m.keys.map fun k => (↑(m.get k) : Multiset P)).sum = inside A pts top := by
  classical
  -- the leaves of a part of the keys hold the points in their voxels
  have hpart : ∀ ks : List κ, ks.Nodup → (∀ k ∈ ks, k ∈ m) →
      (ks.map fun k => (↑(m.get k) : Multiset P)).sum =
        pts.filter fun p => ∃ k ∈ ks, A.addr p (level k) = k := by
    intro ks hnodup hks
    induction ks with
    | nil => simp
    | cons k ks ih =>
      obtain ⟨hk, hnodup⟩ := List.nodup_cons.mp hnodup
      have hkm : k ∈ m := hks k List.mem_cons_self
      have hksm : ∀ j ∈ ks, j ∈ m := fun j hj => hks j (List.mem_cons_of_mem k hj)
      have hboth : (pts.filter fun p => A.addr p (level k) = k ∧
          ∃ j ∈ ks, A.addr p (level j) = j) = 0 := by
        apply Multiset.filter_eq_nil.mpr
        rintro p - ⟨hpk, j, hj, hpj⟩
        exact hk (h.eq_of_inside hkm (hksm j hj) hpk hpj ▸ hj)
      rw [List.map_cons, List.sum_cons, ih hnodup hksm, h.exact k hkm, inside_eq_filter,
        Multiset.filter_add_filter, hboth, add_zero]
      refine Multiset.filter_congr fun p _ => ?_
      simp only [List.exists_mem_cons_iff]
  rw [hpart m.keys m.nodupKeys fun k hk => hk, inside_eq_filter]
  refine Multiset.filter_congr fun p hp => ⟨?_, fun htop => ?_⟩
  · rintro ⟨k, hk, hpk⟩
    exact Addressing.Inside.mono hpk (h.below k hk)
  · obtain ⟨k, hk, hpk⟩ := h.covers p hp htop
    exact ⟨k, hk, hpk⟩

end LeafCut

end LevelTree
