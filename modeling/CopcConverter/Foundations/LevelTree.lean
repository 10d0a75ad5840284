import Mathlib

/-!
# Levelled trees and addressed points

A levelled tree is given by a level and one step `up` towards the roots; everything else about it
(ancestors at a level, the ancestor order, children) is derived here.  Ancestors of one node are
comparable, and a node has one ancestor at every level above it, which is what most arguments about
octrees come down to.

An `Addressing` gives every point one node per level, each the parent of the next, so that the nodes
containing a point form a single path.  A point lies inside a node when the node is the one of its
level on the path; it then lies inside every ancestor of it, and two nodes with a common point are
related.

The file knows nothing about coordinates: octrees, quadtrees and prefix trees are all instances.
-/

/-- A forest whose nodes carry a level; `up` is one step towards the roots. -/
class LevelTree (κ : Type*) where
  /-- The distance from the roots. -/
  level : κ → ℕ
  /-- The parent; a root may be sent anywhere at level zero. -/
  up : κ → κ
  level_up : ∀ k, level (up k) = level k - 1

namespace LevelTree

variable {κ : Type*} [LevelTree κ]

/-! ## Ancestors -/

/-- The ancestor of `k` at level `l`; `k` itself when `l` is not above `k`. -/
def ancestorAt (k : κ) (l : ℕ) : κ := up^[level k - l] k

/-- `a` is `k` or one of its ancestors. -/
def IsAncestor (a k : κ) : Prop := level a ≤ level k ∧ ancestorAt k (level a) = a

instance [DecidableEq κ] (a k : κ) : Decidable (IsAncestor a k) :=
  inferInstanceAs (Decidable (_ ∧ _))

/-- `a` is an ancestor of `k` other than `k`. -/
def IsProperAncestor (a k : κ) : Prop := level a < level k ∧ ancestorAt k (level a) = a

/-- `c` is one level below `q`, and `q` is its parent. -/
def IsChild (q c : κ) : Prop := level c = level q + 1 ∧ up c = q

/-- Every application of `up` takes one level off. -/
lemma level_iterate_up (n : ℕ) (k : κ) : level (up^[n] k) = level k - n := by
  induction n with
  | zero => rfl
  | succ n ih => rw [Function.iterate_succ_apply', level_up, ih, Nat.sub_sub]

/-- The ancestor at a level above `k` sits at that level. -/
lemma level_ancestorAt {k : κ} {l : ℕ} (h : l ≤ level k) : level (ancestorAt k l) = l := by
  rw [ancestorAt, level_iterate_up]
  omega

@[simp] lemma ancestorAt_level (k : κ) : ancestorAt k (level k) = k := by
  simp [ancestorAt]

/-- Going up in two stages is going up once. -/
lemma ancestorAt_ancestorAt {k : κ} {l m : ℕ} (hlm : l ≤ m) (hm : m ≤ level k) :
    ancestorAt (ancestorAt k m) l = ancestorAt k l := by
  have hsplit : level k - l = (m - l) + (level k - m) := by omega
  rw [ancestorAt, level_ancestorAt hm, ancestorAt, ancestorAt, hsplit, Function.iterate_add_apply]

/-- A node and its parent have the same ancestors above the node. -/
lemma ancestorAt_up {k : κ} {l : ℕ} (h : l < level k) : ancestorAt (up k) l = ancestorAt k l := by
  have hsplit : level k - l = (level k - 1 - l) + 1 := by omega
  rw [ancestorAt, level_up, ancestorAt, hsplit, Function.iterate_succ_apply]

lemma IsAncestor.refl (k : κ) : IsAncestor k k := ⟨le_rfl, ancestorAt_level k⟩

lemma IsAncestor.trans {a b k : κ} (hab : IsAncestor a b) (hbk : IsAncestor b k) :
    IsAncestor a k := by
  refine ⟨hab.1.trans hbk.1, ?_⟩
  rw [← ancestorAt_ancestorAt hab.1 hbk.1, hbk.2, hab.2]

/-- Two ancestors of one node are comparable, by their levels. -/
lemma IsAncestor.of_level_le {a b k : κ} (ha : IsAncestor a k) (hb : IsAncestor b k)
    (h : level a ≤ level b) : IsAncestor a b := by
  refine ⟨h, ?_⟩
  rw [← hb.2, ancestorAt_ancestorAt h hb.1, ha.2]

/-- Ancestors at equal levels are equal. -/
lemma IsAncestor.eq_of_level {a k : κ} (ha : IsAncestor a k) (h : level a = level k) : a = k := by
  have := ha.2
  rwa [h, ancestorAt_level, eq_comm] at this

lemma IsProperAncestor.isAncestor {a k : κ} (h : IsProperAncestor a k) : IsAncestor a k :=
  ⟨h.1.le, h.2⟩

/-- An ancestor at another level is a proper one. -/
lemma IsAncestor.proper {a k : κ} (h : IsAncestor a k) (hne : a ≠ k) : IsProperAncestor a k :=
  ⟨lt_of_le_of_ne h.1 fun he => hne (h.eq_of_level he), h.2⟩

lemma IsAncestor.eq_or_proper {a k : κ} (h : IsAncestor a k) : a = k ∨ IsProperAncestor a k := by
  by_cases he : a = k
  · exact Or.inl he
  · exact Or.inr (h.proper he)

lemma IsAncestor.trans_proper {a b k : κ} (hab : IsAncestor a b) (hbk : IsProperAncestor b k) :
    IsProperAncestor a k :=
  ⟨lt_of_le_of_lt hab.1 hbk.1, (hab.trans hbk.isAncestor).2⟩

lemma IsProperAncestor.trans_isAncestor {a b k : κ} (hab : IsProperAncestor a b)
    (hbk : IsAncestor b k) : IsProperAncestor a k :=
  ⟨lt_of_lt_of_le hab.1 hbk.1, (hab.isAncestor.trans hbk).2⟩

/-- The ancestor of `k` at a level above it is an ancestor. -/
lemma isAncestor_ancestorAt {k : κ} {l : ℕ} (h : l ≤ level k) : IsAncestor (ancestorAt k l) k := by
  refine ⟨(level_ancestorAt h).le.trans h, ?_⟩
  rw [level_ancestorAt h]

/-! ## Children -/

lemma IsChild.isProperAncestor {q c : κ} (h : IsChild q c) : IsProperAncestor q c := by
  refine ⟨h.1 ▸ Nat.lt_succ_self _, ?_⟩
  rw [← ancestorAt_up (h.1 ▸ Nat.lt_succ_self _), h.2, ancestorAt_level]

/-- Every node above level zero is a child of its parent. -/
lemma isChild_up {k : κ} (h : 0 < level k) : IsChild (up k) k := by
  refine ⟨?_, rfl⟩
  rw [level_up]
  omega

/-- Two children of one node are ancestors of each other only when they are equal. -/
lemma IsChild.eq_of_isAncestor {q c c' : κ} (h : IsChild q c) (h' : IsChild q c')
    (ha : IsAncestor c c') : c = c' :=
  ha.eq_of_level (h.1.trans h'.1.symm)

/-- What lies strictly below a node lies at or below exactly one of its children. -/
lemma IsProperAncestor.exists_child {q k : κ} (h : IsProperAncestor q k) :
    ∃ c, IsChild q c ∧ IsAncestor c k := by
  have hl : level q + 1 ≤ level k := h.1
  have hc : level (ancestorAt k (level q + 1)) = level q + 1 := level_ancestorAt hl
  refine ⟨ancestorAt k (level q + 1), ⟨hc, ?_⟩, isAncestor_ancestorAt hl⟩
  have hup : level (up (ancestorAt k (level q + 1))) = level q := by rw [level_up, hc]; omega
  have hself := ancestorAt_level (up (ancestorAt k (level q + 1)))
  rw [hup] at hself
  calc up (ancestorAt k (level q + 1))
      = ancestorAt (up (ancestorAt k (level q + 1))) (level q) := hself.symm
    _ = ancestorAt (ancestorAt k (level q + 1)) (level q) := ancestorAt_up (by omega)
    _ = ancestorAt k (level q) := ancestorAt_ancestorAt (Nat.le_succ _) hl
    _ = q := h.2

/-! ## Addressed points -/

variable {P : Type*}

/-- One node per level for every point, each the parent of the next. -/
structure Addressing (P κ : Type*) [LevelTree κ] where
  /-- The node of a point at a level. -/
  addr : P → ℕ → κ
  level_addr : ∀ p l, level (addr p l) = l
  up_addr : ∀ p l, up (addr p (l + 1)) = addr p l

namespace Addressing

variable (A : Addressing P κ)

/-- The point `p` lies in the voxel of the node `k`. -/
def Inside (p : P) (k : κ) : Prop := A.addr p (level k) = k

@[simp] lemma level_addr' (p : P) (l : ℕ) : level (A.addr p l) = l := A.level_addr p l

/-- A point lies in each of its own nodes. -/
@[simp] lemma inside_addr (p : P) (l : ℕ) : A.Inside p (A.addr p l) := by
  simp [Inside]

/-- Consecutive nodes of a point are parent and child. -/
lemma isChild_addr (p : P) (l : ℕ) : IsChild (A.addr p l) (A.addr p (l + 1)) := by
  refine ⟨?_, A.up_addr p l⟩
  simp

/-- The nodes of a point form one path. -/
lemma ancestorAt_addr (p : P) {l m : ℕ} (h : l ≤ m) : ancestorAt (A.addr p m) l = A.addr p l := by
  induction m with
  | zero =>
    obtain rfl : l = 0 := by omega
    simp [ancestorAt]
  | succ m ih =>
    rcases Nat.lt_or_ge m l with hlt | hge
    · obtain rfl : l = m + 1 := by omega
      simp [ancestorAt]
    · rw [← ancestorAt_up (by simp; omega), A.up_addr, ih hge]

lemma isAncestor_addr (p : P) {l m : ℕ} (h : l ≤ m) : IsAncestor (A.addr p l) (A.addr p m) := by
  refine ⟨by simpa using h, ?_⟩
  rw [A.level_addr, A.ancestorAt_addr p h]

variable {A}

/-- A point in a voxel is in every voxel above it. -/
lemma Inside.mono {p : P} {a k : κ} (hk : A.Inside p k) (ha : IsAncestor a k) : A.Inside p a := by
  have hk' : A.addr p (level k) = k := hk
  have := ha.2
  rw [← hk', A.ancestorAt_addr p ha.1] at this
  exact this

/-- Two voxels with a common point are nested. -/
lemma Inside.isAncestor {p : P} {a k : κ} (ha : A.Inside p a) (hk : A.Inside p k)
    (h : level a ≤ level k) : IsAncestor a k := by
  have ha' : A.addr p (level a) = a := ha
  have hk' : A.addr p (level k) = k := hk
  rw [← ha', ← hk']
  exact A.isAncestor_addr p h

/-- A point of a voxel is in exactly one of its child voxels. -/
lemma Inside.child {p : P} {q : κ} (h : A.Inside p q) : IsChild q (A.addr p (level q + 1)) := by
  have h' : A.addr p (level q) = q := h
  have := A.isChild_addr p (level q)
  rwa [h'] at this

lemma Inside.eq_child {p : P} {q c : κ} (hc : IsChild q c) (h : A.Inside p c) :
    A.addr p (level q + 1) = c := by
  have h' : A.addr p (level c) = c := h
  rwa [hc.1] at h'

end Addressing

/-- The points of `pts` that lie in the voxel `k`. -/
noncomputable def inside (A : Addressing P κ) (pts : Multiset P) (k : κ) : Multiset P :=
  haveI := Classical.decPred fun p => A.Inside p k
  pts.filter fun p => A.Inside p k

/-- The points of a voxel, picked by their address. -/
lemma inside_eq_filter (A : Addressing P κ) (pts : Multiset P) (k : κ)
    [DecidablePred fun p => A.addr p (level k) = k] :
    inside A pts k = pts.filter fun p => A.addr p (level k) = k := by
  unfold inside Addressing.Inside
  convert rfl

lemma mem_inside {A : Addressing P κ} {pts : Multiset P} {k : κ} {p : P} :
    p ∈ inside A pts k ↔ p ∈ pts ∧ A.Inside p k := by
  simp [inside]

/-- A smaller voxel contains fewer points. -/
lemma inside_le_of_isAncestor {A : Addressing P κ} {pts : Multiset P} {a k : κ}
    (h : IsAncestor a k) : inside A pts k ≤ inside A pts a := by
  classical
  simp only [inside]
  exact Multiset.monotone_filter_right _ fun p hp => hp.mono h

/-- Counting in a voxel: every point inside it, none outside. -/
lemma count_inside [DecidableEq P] {A : Addressing P κ} {pts : Multiset P} {k : κ} {p : P}
    (h : A.Inside p k) : (inside A pts k).count p = pts.count p := by
  classical
  simp only [inside]
  rw [Multiset.count_filter, if_pos h]

end LevelTree
