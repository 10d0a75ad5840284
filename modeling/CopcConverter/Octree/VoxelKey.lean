import CopcConverter.Foundations.LevelTree

/-!
# Voxel keys

A node of the octree is named by its level and three coordinates, and its parent is one level up, at
half the coordinates, rounded down.  The keys here are the keys of an octree without end, with
natural numbers as coordinates.  Parents, children, ancestors and levels are those of the general
theory of trees with levels, of which the keys are an instance; the lemmas here say what its notions
are for keys.

The source keeps the four numbers in `i32`, and down to level 31 they are the same as here.  From
level 32 on a coordinate may pass `2 ^ 31`; in a release build it wraps around and becomes negative,
and `VoxelKey::parent`, which halves it, then rounds towards zero instead of down.  That arithmetic,
and how far it agrees with this one, is the subject of the modules over 32-bit keys.
-/

namespace CopcConverter

/-- Identifies a node in the COPC octree. -/
structure VoxelKey where
  /-- Octree level (0 = root). -/
  level : ℕ
  x : ℕ
  y : ℕ
  z : ℕ
  deriving DecidableEq, Repr

namespace VoxelKey

/-- A key is given by its level and its coordinates. -/
lemma eq_of_coords {k k' : VoxelKey} (hl : k.level = k'.level) (hx : k.x = k'.x) (hy : k.y = k'.y)
    (hz : k.z = k'.z) : k = k' := by
  cases k
  cases k'
  simp only at hl hx hy hz
  rw [hl, hx, hy, hz]

/-- Parent key (none for the root level). -/
def parent (k : VoxelKey) : Option VoxelKey :=
  if k.level = 0 then none
  else some { level := k.level - 1, x := k.x / 2, y := k.y / 2, z := k.z / 2 }

/-- The global root. -/
def root : VoxelKey := ⟨0, 0, 0, 0⟩

instance : LevelTree VoxelKey where
  level := VoxelKey.level
  up k := k.parent.getD k
  level_up k := by
    unfold parent
    split_ifs with h
    · simp [h]
    · simp

@[simp] lemma level_eq (k : VoxelKey) : LevelTree.level k = k.level := rfl

lemma parent_eq_none {k : VoxelKey} : k.parent = none ↔ k.level = 0 := by
  unfold parent
  split_ifs with h <;> simp [h]

lemma parent_of_level_ne_zero {k : VoxelKey} (h : k.level ≠ 0) :
    k.parent = some ⟨k.level - 1, k.x / 2, k.y / 2, k.z / 2⟩ := by
  rw [parent, if_neg h]

/-- The parent of a key, when it has one, is one step up the tree. -/
lemma up_eq_of_parent {k q : VoxelKey} (h : k.parent = some q) : LevelTree.up k = q := by
  change k.parent.getD k = q
  rw [h, Option.getD_some]

lemma level_of_parent {k q : VoxelKey} (h : k.parent = some q) : k.level = q.level + 1 := by
  unfold parent at h
  split_ifs at h with h0
  · have hq := Option.some.inj h
    rw [← hq]
    change k.level = k.level - 1 + 1
    omega

/-- The children of a key are the keys it is the parent of. -/
lemma isChild_iff {q c : VoxelKey} : LevelTree.IsChild q c ↔ c.parent = some q := by
  constructor
  · rintro ⟨hl, hup⟩
    have h0 : c.level ≠ 0 := by
      rw [level_eq, level_eq] at hl
      omega
    change c.parent.getD c = q at hup
    rw [parent_of_level_ne_zero h0] at hup ⊢
    rw [← hup, Option.getD_some]
  · intro h
    exact ⟨level_of_parent h, up_eq_of_parent h⟩

lemma level_of_isChild {q c : VoxelKey} (h : LevelTree.IsChild q c) : c.level = q.level + 1 := h.1

/-- Dropping the `n` low bits of every coordinate goes `n` levels up. -/
lemma iterate_up (n : ℕ) (k : VoxelKey) (h : n ≤ k.level) :
    LevelTree.up^[n] k = ⟨k.level - n, k.x >>> n, k.y >>> n, k.z >>> n⟩ := by
  induction n with
  | zero => rfl
  | succ n ih =>
    rw [Function.iterate_succ_apply', ih (by omega)]
    have hne : k.level - n ≠ 0 := by omega
    apply (up_eq_of_parent (parent_of_level_ne_zero hne)).trans
    simp only [Nat.shiftRight_succ, VoxelKey.mk.injEq, and_true]
    omega

/-- The ancestor at a shallower level keeps the high bits of every coordinate. -/
lemma ancestorAt_eq {k : VoxelKey} {l : ℕ} (h : l ≤ k.level) :
    LevelTree.ancestorAt k l =
      ⟨l, k.x >>> (k.level - l), k.y >>> (k.level - l), k.z >>> (k.level - l)⟩ := by
  rw [LevelTree.ancestorAt, level_eq, iterate_up _ _ (Nat.sub_le _ _)]
  simp only [VoxelKey.mk.injEq, and_true]
  omega

/-- A key is in the voxel of an ancestor when its high bits agree with it. -/
lemma isAncestor_iff {a k : VoxelKey} : LevelTree.IsAncestor a k ↔ a.level ≤ k.level ∧
    k.x >>> (k.level - a.level) = a.x ∧ k.y >>> (k.level - a.level) = a.y ∧
      k.z >>> (k.level - a.level) = a.z := by
  unfold LevelTree.IsAncestor
  rw [level_eq, level_eq]
  refine and_congr_right fun h => ?_
  rw [ancestorAt_eq h]
  obtain ⟨l, x, y, z⟩ := a
  simp

end VoxelKey

end CopcConverter
