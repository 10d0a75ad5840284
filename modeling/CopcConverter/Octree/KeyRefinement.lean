import CopcConverter.Octree.StoredPoint
import CopcConverter.Writer.PageBoundaries

/-!
# Keys at two depths

The stages of the build classify one point at different depths: into the counting grid, into its
chunk, into a sub-octant, into a leaf.  They rely on these voxels containing each other.  The voxel
of a point at a depth can be had from its voxel at any greater depth in three ways: by dropping the
low bits of the coordinates, by going up from parent to parent, or by descending anew.

All three agree in any arithmetic, for points outside the cube as well, because the descent to the
greater depth passes through the lesser one.  In exact arithmetic the box of the voxel moreover
holds a point of the cube, at every depth.  Coordinates are unbounded here; how far 32 bits carry is
a matter of another module.
-/

namespace CopcConverter

open LevelTree

/-! ## Parents -/

namespace VoxelKey

/-- Taking the parent some times, as often as there are levels at most, goes up the tree. -/
lemma iterate_parent (n : ℕ) (k : VoxelKey) (h : n ≤ k.level) :
    (fun q : Option VoxelKey => q.bind parent)^[n] (some k) = some (up^[n] k) := by
  induction n with
  | zero => rfl
  | succ n ih =>
    have hlevel : (up^[n] k).level ≠ 0 := by
      have hup := level_iterate_up n k
      rw [level_eq, level_eq] at hup
      omega
    rw [Function.iterate_succ_apply', ih (by omega), Function.iterate_succ_apply', Option.bind_some,
      parent_of_level_ne_zero hlevel, up_eq_of_parent (parent_of_level_ne_zero hlevel)]

end VoxelKey

/-! ## Any arithmetic -/

section Refinement

variable {F : Type} [FloatArith F] (x y z cx cy cz halfsize : F)

/-- The key at a depth is the ancestor of the key at any greater depth. -/
lemma ancestorAt_pointToKey {d e : ℕ} (h : d ≤ e) :
    ancestorAt (pointToKey x y z cx cy cz halfsize e) d =
      pointToKey x y z cx cy cz halfsize d := by
  induction e, h using Nat.le_induction with
  | base => exact ancestorAt_level (pointToKey x y z cx cy cz halfsize d)
  | succ e hde ih =>
    have hup := VoxelKey.up_eq_of_parent (pointToKey_parent x y z cx cy cz halfsize e)
    rw [← ih, ← hup]
    exact (ancestorAt_up (Nat.lt_succ_of_le hde)).symm

end Refinement

/-! ## Exact arithmetic -/

/-- A point of the half-open cube lies in the box of its voxel at every depth. -/
lemma pointToKey_contains {pos center : Axis → ℚ} {half : ℚ}
    (hcube : ∀ a, center a - half ≤ pos a ∧ pos a < center a + half) (depth : ℕ) (a : Axis) :
    let v := (pointToKey (pos .x) (pos .y) (pos .z) (center .x) (center .y) (center .z) half
      depth).coord a
    center a - half + v * (2 * half / 2 ^ depth) ≤ pos a ∧
      pos a < center a - half + (v + 1) * (2 * half / 2 ^ depth) := by
  obtain ⟨hcenter, hlow, hhigh⟩ := (descent_holds hcube depth).2 a
  rw [hcenter] at hlow hhigh
  have hcoord : (pointToKey (pos .x) (pos .y) (pos .z) (center .x) (center .y) (center .z) half
      depth).coord a = (((Descent.step (pos .x) (pos .y) (pos .z))^[depth]
        ⟨half, ⟨0, center .x⟩, ⟨0, center .y⟩, ⟨0, center .z⟩⟩).along a).v := by cases a <;> rfl
  simp only
  rw [hcoord]
  constructor <;> linarith

/-! ## All together -/

/-- **The keys of a point refine each other.**  In any arithmetic the key at a depth keeps the high
bits of the key at a greater depth, its coordinates stay within its level, and it is reached by
going up from the deeper key.  In exact arithmetic its box holds a point of the half-open cube. -/
theorem pointToKey_refines {F : Type} [FloatArith F] (x y z cx cy cz halfsize : F) {d e : ℕ}
    (hde : d ≤ e) :
    (∀ a, (pointToKey x y z cx cy cz halfsize e).coord a >>> (e - d) =
      (pointToKey x y z cx cy cz halfsize d).coord a) ∧
    (∀ a, (pointToKey x y z cx cy cz halfsize d).coord a < 2 ^ d) ∧
    (fun q : Option VoxelKey => q.bind VoxelKey.parent)^[e - d]
        (some (pointToKey x y z cx cy cz halfsize e)) =
      some (pointToKey x y z cx cy cz halfsize d) ∧
    ancestorAtLevel (pointToKey x y z cx cy cz halfsize e) d =
      pointToKey x y z cx cy cz halfsize d ∧
    ∀ (pos center : Axis → ℚ) (half : ℚ),
      (∀ a, center a - half ≤ pos a ∧ pos a < center a + half) → ∀ depth a,
        let v := (pointToKey (pos .x) (pos .y) (pos .z) (center .x) (center .y) (center .z) half
          depth).coord a
        center a - half + v * (2 * half / 2 ^ depth) ≤ pos a ∧
          pos a < center a - half + (v + 1) * (2 * half / 2 ^ depth) := by
  have hup := ancestorAt_pointToKey x y z cx cy cz halfsize hde
  refine ⟨fun a => ?_, fun a => ?_, ?_, ?_, fun _ _ _ => pointToKey_contains⟩
  · rw [← hup, VoxelKey.ancestorAt_eq hde]
    cases a <;> rfl
  · obtain ⟨hx, hy, hz⟩ := pointToKey_lt x y z cx cy cz halfsize d
    cases a
    · exact hx
    · exact hy
    · exact hz
  · rw [VoxelKey.iterate_parent _ _ (Nat.sub_le e d), ← hup]
    rfl
  · rw [ancestorAtLevel_eq, hup]

/-- A point a quarter into a cube of side 2, at depths 1 and 3, and a point outside of it. -/
theorem pointToKey_refines_quarter :
    (pointToKey (1 / 2 : ℚ) 5 (-5) 1 1 1 1 3).coord .x >>> 2 = 0 ∧
      ancestorAtLevel (pointToKey (1 / 2 : ℚ) 5 (-5) 1 1 1 1 3) 1 = ⟨1, 0, 1, 0⟩ := by
  obtain ⟨hshift, -, -, hancestor, -⟩ :=
    pointToKey_refines (1 / 2 : ℚ) 5 (-5) 1 1 1 1 (show 1 ≤ 3 by decide)
  have hkey : pointToKey (1 / 2 : ℚ) 5 (-5) 1 1 1 1 1 = ⟨1, 0, 1, 0⟩ := by decide +kernel
  rw [hkey] at hshift hancestor
  exact ⟨hshift .x, hancestor⟩

end CopcConverter
