import CopcConverter.Chunking.MergeSparseCells

/-!
# What a chunk plan is

The plan of `merge_sparse_cells`, described without its loops.  The source collapses the counting
grid level by level: eight voxels that together stay within the target become one, and those that
cannot be merged any further are emitted.  At the finest level a cell above the target is emitted as
its descendants `k` levels below, with `k` the least depth at which the target is met on average,
capped.

The emitting voxels are characterised by their counts alone, and the plan lists the chunks of these
voxels.  From this comes what the rest of the conversion needs of a plan: no chunk is planned twice,
none lies below another one, the estimates add up to the number of counted points, and a chunk that
could still have been divided has at most as many points as the target.
-/

namespace CopcConverter

open CubeGrid LevelTree

variable {grid : ℕ → UInt32} {gridDepth chunkTarget : ℕ}

/-! ## Voxels and their totals -/

/-- The key is a voxel of the octree. -/
def VoxelKey.InOctree (v : VoxelKey) : Prop :=
  v.x < 2 ^ v.level ∧ v.y < 2 ^ v.level ∧ v.z < 2 ^ v.level

/-- The number of counted points in a voxel at or above the grid depth. -/
def cellTotal (grid : ℕ → UInt32) (gridDepth : ℕ) (v : VoxelKey) : ℕ :=
  voxelTotal grid gridDepth (gridDepth - v.level) (v.x, v.y, v.z)

/-- The total of a voxel is the sum of the counts of the finest cells it covers. -/
lemma voxelTotal_eq_sum (grid : ℕ → UInt32) (gridDepth n : ℕ) (c : ℕ × ℕ × ℕ) :
    voxelTotal grid gridDepth n c = ((coords (2 ^ n)).map fun i =>
      (grid (flat (2 ^ gridDepth)
        (c.1 * 2 ^ n + i.1, c.2.1 * 2 ^ n + i.2.1, c.2.2 * 2 ^ n + i.2.2))).toNat).sum := by
  -- summing over the blocks of a grid from the top is summing from the bottom
  have hblocks : ∀ n (f : ℕ × ℕ × ℕ → ℕ) (t : ℕ → ℕ × ℕ × ℕ → ℕ), t 0 = f →
      (∀ n c, t (n + 1) c = ((coords 2).map fun d => t n (childCell c d)).sum) →
      ∀ c, t n c = ((coords (2 ^ n)).map fun i =>
        f (c.1 * 2 ^ n + i.1, c.2.1 * 2 ^ n + i.2.1, c.2.2 * 2 ^ n + i.2.2)).sum := by
    intro n
    induction n with
    | zero =>
      intro f t h0 _ c
      simp [h0]
    | succ n ih =>
      intro f t h0 hs c
      rw [ih (t 1) (fun n => t (n + 1)) rfl (fun n c => hs (n + 1) c), pow_succ', sum_coords_double]
      refine congrArg List.sum (List.map_congr_left fun i _ => ?_)
      rw [hs 0, h0]
      refine congrArg List.sum (List.map_congr_left fun d _ => ?_)
      simp only [childCell]
      apply congrArg f
      simp only [Prod.mk.injEq]
      refine ⟨?_, ?_, ?_⟩ <;> ring
  exact hblocks n _ (voxelTotal grid gridDepth) rfl (fun _ _ => rfl) c

/-- The total of the root is the total of the grid. -/
lemma cellTotal_root (grid : ℕ → UInt32) (gridDepth : ℕ) : cellTotal grid gridDepth VoxelKey.root =
    ∑ i ∈ Finset.range (2 ^ gridDepth * 2 ^ gridDepth * 2 ^ gridDepth), (grid i).toNat := by
  rw [← sum_flat, cellTotal, voxelTotal_eq_sum]
  simp [VoxelKey.root]

/-- A voxel above the grid depth holds at least what any of its children does. -/
lemma cellTotal_le_of_parent {v p : VoxelKey} (hv : v.level ≤ gridDepth) (h : v.parent = some p) :
    cellTotal grid gridDepth v ≤ cellTotal grid gridDepth p := by
  have hl := VoxelKey.level_of_parent h
  rw [VoxelKey.parent_of_level_ne_zero (by omega)] at h
  obtain rfl := Option.some.inj h
  have hn : gridDepth - (v.level - 1) = (gridDepth - v.level) + 1 := by omega
  have hchild : childCell (v.x / 2, v.y / 2, v.z / 2) (v.x % 2, v.y % 2, v.z % 2) =
      (v.x, v.y, v.z) := by
    simp only [childCell, Prod.mk.injEq]
    omega
  have hd : (v.x % 2, v.y % 2, v.z % 2) ∈ coords 2 := mem_coords.mpr (by simp only; omega)
  have hle : voxelTotal grid gridDepth (gridDepth - v.level) (childCell (v.x / 2, v.y / 2, v.z / 2)
      (v.x % 2, v.y % 2, v.z % 2)) ≤ voxelTotal grid gridDepth (gridDepth - v.level + 1)
        (v.x / 2, v.y / 2, v.z / 2) := voxelTotal_child_le hd
  rw [hchild] at hle
  rw [cellTotal, cellTotal]
  simp only [hn]
  exact hle

/-- A voxel holds at least what any voxel below it does. -/
lemma cellTotal_le_of_isAncestor {a v : VoxelKey} (hv : v.level ≤ gridDepth)
    (h : IsAncestor a v) : cellTotal grid gridDepth v ≤ cellTotal grid gridDepth a := by
  have hdiff : ∀ n v, v.level = a.level + n → v.level ≤ gridDepth → IsAncestor a v →
      cellTotal grid gridDepth v ≤ cellTotal grid gridDepth a := by
    intro n
    induction n with
    | zero =>
      intro v hn _ hav
      rw [hav.eq_of_level hn.symm]
    | succ n ih =>
      intro v hn hv hav
      have hp := VoxelKey.parent_of_level_ne_zero (k := v) (by omega)
      have hchild := VoxelKey.isChild_iff.mpr hp
      have hap := hav.of_level_le hchild.isProperAncestor.isAncestor
        (by rw [VoxelKey.level_eq, VoxelKey.level_eq]; simp only; omega)
      refine (cellTotal_le_of_parent hv hp).trans (ih _ ?_ ?_ hap)
      · simp only
        omega
      · simp only
        omega
  have hl := h.1
  rw [VoxelKey.level_eq, VoxelKey.level_eq] at hl
  exact hdiff (v.level - a.level) v (by omega) hv h

/-! ## Split depths -/

/-- `k` is the least depth at which the target is met on average, capped. -/
def LeastSplit (pop chunkTarget k : ℕ) : Prop :=
  k ≤ splitLevelCap ∧ (∀ j < k, chunkTarget * 8 ^ j < pop) ∧
    (k = splitLevelCap ∨ pop ≤ chunkTarget * 8 ^ k)

lemma div_gt_iff (pop chunkTarget k : ℕ) :
    (pop : ℚ) / 8 ^ k > chunkTarget ↔ chunkTarget * 8 ^ k < pop := by
  rw [gt_iff_lt, lt_div_iff₀ (by positivity)]
  exact_mod_cast Iff.rfl

/-- `split_extra_levels` computes the least split depth. -/
lemma splitExtraLevels_least (pop chunkTarget : ℕ) :
    LeastSplit pop chunkTarget (splitExtraLevels pop chunkTarget) := by
  have hloop : ∀ fuel k, k + fuel = splitLevelCap → 0 < fuel →
      (∀ j < k, chunkTarget * 8 ^ j < pop) →
      LeastSplit pop chunkTarget (splitExtraLevelsFrom pop chunkTarget fuel k) := by
    intro fuel
    induction fuel with
    | zero => exact fun k _ h0 => absurd h0 (lt_irrefl 0)
    | succ fuel ih =>
      intro k hk _ hbelow
      rw [splitExtraLevelsFrom]
      split_ifs with hgt hcap
      · have hlt := (div_gt_iff pop chunkTarget k).mp hgt
        refine ⟨by omega, fun j hj => ?_, Or.inl (by omega)⟩
        rcases Nat.lt_succ_iff_lt_or_eq.mp hj with hj | rfl
        · exact hbelow j hj
        · exact hlt
      · have hlt := (div_gt_iff pop chunkTarget k).mp hgt
        refine ih (k + 1) (by omega) (by omega) fun j hj => ?_
        rcases Nat.lt_succ_iff_lt_or_eq.mp hj with hj | rfl
        · exact hbelow j hj
        · exact hlt
      · refine ⟨by omega, hbelow, Or.inr ?_⟩
        rw [div_gt_iff] at hgt
        omega
  unfold splitExtraLevels
  split_ifs with h
  · exact ⟨Nat.zero_le _, fun j hj => absurd hj (Nat.not_lt_zero j), Or.inr (by omega)⟩
  · exact hloop splitLevelCap 0 rfl (by decide) fun j hj => absurd hj (Nat.not_lt_zero j)

/-- There is only one least split depth. -/
lemma LeastSplit.unique {pop k k' : ℕ} (h : LeastSplit pop chunkTarget k)
    (h' : LeastSplit pop chunkTarget k') : k = k' := by
  have hle : ∀ {k k'}, LeastSplit pop chunkTarget k → LeastSplit pop chunkTarget k' → k ≤ k' := by
    intro k k' h h'
    by_contra hlt
    have hgt := h.2.1 k' (by omega)
    rcases h'.2.2 with he | hle
    · have := h.1
      omega
    · omega
  exact le_antisymm (hle h h') (hle h' h)

lemma splitExtraLevels_eq_zero {pop : ℕ} (h : pop ≤ chunkTarget) :
    splitExtraLevels pop chunkTarget = 0 := if_pos h

/-! ## The chunks of one emitting voxel -/

/-- The descendant of `v` at the local octant `s`, `k` levels below. -/
def subKey (v : VoxelKey) (k : ℕ) (s : ℕ × ℕ × ℕ) : VoxelKey :=
  ⟨v.level + k, v.x * 2 ^ k + s.1, v.y * 2 ^ k + s.2.1, v.z * 2 ^ k + s.2.2⟩

lemma isAncestor_subKey (v : VoxelKey) {k : ℕ} {s : ℕ × ℕ × ℕ} (hs : s ∈ coords (2 ^ k)) :
    IsAncestor v (subKey v k s) := by
  obtain ⟨hx, hy, hz⟩ := mem_coords.mp hs
  have hshift : ∀ {a i}, i < 2 ^ k → (a * 2 ^ k + i) >>> k = a := fun {a i} hi => by
    rw [Nat.shiftRight_eq_div_pow, Nat.mul_comm, Nat.mul_add_div (by positivity),
      Nat.div_eq_of_lt hi, Nat.add_zero]
  refine VoxelKey.isAncestor_iff.mpr ⟨Nat.le_add_right _ _, ?_⟩
  simp only [subKey, Nat.add_sub_cancel_left]
  exact ⟨hshift hx, hshift hy, hshift hz⟩

/-- Every voxel `k` levels below `v` is a descendant at one of the local octants. -/
lemma exists_subKey {v u : VoxelKey} (h : IsAncestor v u) {k : ℕ} (hk : u.level = v.level + k) :
    ∃ s ∈ coords (2 ^ k), subKey v k s = u := by
  obtain ⟨-, hx, hy, hz⟩ := VoxelKey.isAncestor_iff.mp h
  rw [hk, Nat.add_sub_cancel_left, Nat.shiftRight_eq_div_pow] at hx hy hz
  refine ⟨(u.x % 2 ^ k, u.y % 2 ^ k, u.z % 2 ^ k), mem_coords.mpr ?_, ?_⟩
  · exact ⟨Nat.mod_lt _ (by positivity), Nat.mod_lt _ (by positivity),
      Nat.mod_lt _ (by positivity)⟩
  · obtain ⟨l, x, y, z⟩ := u
    simp only [subKey, VoxelKey.mk.injEq] at *
    rw [← hx, ← hy, ← hz]
    exact ⟨hk.symm, Nat.div_add_mod' _ _, Nat.div_add_mod' _ _, Nat.div_add_mod' _ _⟩

lemma subKey_injective (v : VoxelKey) (k : ℕ) : Function.Injective (subKey v k) := by
  rintro ⟨x, y, z⟩ ⟨x', y', z'⟩ h
  simp only [subKey, VoxelKey.mk.injEq] at h
  simp only [Prod.mk.injEq]
  omega

lemma subKey_zero (v : VoxelKey) : (coords (2 ^ 0)).map (subKey v 0) = [v] := by
  simp [subKey]

/-- The keys of sub-chunks. -/
lemma map_key_subChunks {v : VoxelKey} {k est : ℕ} {l : List (ℕ × ℕ × ℕ)}
    (hl : ∀ s ∈ l, s ∈ coords (2 ^ k)) (r : ℕ) :
    (subChunks (v.level + k) (v.x <<< k) (v.y <<< k) (v.z <<< k) est r l).map PlannedChunk.key =
      l.map (subKey v k) := by
  induction l generalizing r with
  | nil => rfl
  | cons s l ih =>
    obtain ⟨sx, sy, sz⟩ := s
    obtain ⟨hx, hy, hz⟩ := mem_coords.mp (hl _ List.mem_cons_self)
    have hor : ∀ {a i}, i < 2 ^ k → a <<< k ||| i = a * 2 ^ k + i := fun {a i} hi => by
      rw [← Nat.shiftLeft_add_eq_or_of_lt hi, Nat.shiftLeft_eq]
    rw [subChunks, List.map_cons, ih fun s hs => hl s (List.mem_cons_of_mem _ hs)]
    apply congrArg (· :: l.map (subKey v k))
    rw [PlannedChunk.key, subKey, hor hx, hor hy, hor hz]

/-- Sub-chunk estimates add up to the evenly spread count and the remainder. -/
lemma sum_subChunks {lvl x y z est : ℕ} {l : List (ℕ × ℕ × ℕ)} {r : ℕ} (hr : r ≤ l.length) :
    ((subChunks lvl x y z est r l).map PlannedChunk.pointCount).sum = est * l.length + r := by
  induction l generalizing r with
  | nil =>
    rw [Nat.le_zero.mp hr]
    rfl
  | cons s l ih =>
    obtain ⟨sx, sy, sz⟩ := s
    rw [subChunks, List.map_cons, List.sum_cons, List.length_cons]
    rw [List.length_cons] at hr
    rw [ih (by omega), Nat.mul_succ]
    change (if r > 0 then est + 1 else est) + (est * l.length + (r - 1)) = est * l.length + est + r
    split_ifs <;> omega

lemma pointCount_subChunks {lvl x y z est : ℕ} {l : List (ℕ × ℕ × ℕ)} {r : ℕ} {c : PlannedChunk}
    (hc : c ∈ subChunks lvl x y z est r l) :
    c.pointCount ≤ est ∨ (0 < r ∧ c.pointCount = est + 1) := by
  induction l generalizing r with
  | nil => cases hc
  | cons s l ih =>
    obtain ⟨sx, sy, sz⟩ := s
    rcases List.mem_cons.mp hc with rfl | hc
    · simp only
      split_ifs with hr
      · exact Or.inr ⟨hr, rfl⟩
      · exact Or.inl le_rfl
    · rcases ih hc with hle | ⟨hr, he⟩
      · exact Or.inl hle
      · exact Or.inr ⟨by omega, he⟩

/-- The depth of the chunks of an emitting voxel below it. -/
def emitDepth (gridDepth chunkTarget pop : ℕ) (v : VoxelKey) : ℕ :=
  if v.level = gridDepth then splitExtraLevels pop chunkTarget else 0

/-- The chunks of one emitting voxel. -/
def emitted (gridDepth chunkTarget pop : ℕ) (v : VoxelKey) : List PlannedChunk :=
  emitChunkRoot v.level gridDepth v.x v.y v.z pop chunkTarget

lemma length_coords_pow (k : ℕ) : (coords (2 ^ k)).length = 8 ^ k := by
  rw [length_coords, ← mul_pow, ← mul_pow]
  norm_num

/-- The number of sub-chunks, as the source computes it. -/
lemma one_shiftLeft_three_mul (k : ℕ) : 1 <<< (3 * k) = 8 ^ k := by
  rw [Nat.one_shiftLeft, pow_mul]
  norm_num

/-- An emitting voxel emits all its descendants at the split depth. -/
lemma map_key_emitted (gridDepth chunkTarget pop : ℕ) (v : VoxelKey) :
    (emitted gridDepth chunkTarget pop v).map PlannedChunk.key =
      (coords (2 ^ emitDepth gridDepth chunkTarget pop v)).map
        (subKey v (emitDepth gridDepth chunkTarget pop v)) := by
  unfold emitted emitChunkRoot
  simp only
  rw [← emitDepth]
  split_ifs with h
  · rw [h, subKey_zero]
    rfl
  · have hl : v.level = gridDepth := by
      by_contra hne
      exact h (if_neg hne)
    rw [Nat.one_shiftLeft, Nat.one_shiftLeft, ← hl]
    exact map_key_subChunks (fun s hs => hs) _

/-- The estimates of the chunks of an emitting voxel add up to its count. -/
lemma sum_emitted (pop : ℕ) (v : VoxelKey) :
    ((emitted gridDepth chunkTarget pop v).map PlannedChunk.pointCount).sum = pop := by
  unfold emitted emitChunkRoot
  simp only
  rw [← emitDepth]
  split_ifs with h
  · simp
  · set k := emitDepth gridDepth chunkTarget pop v
    have hlen : (coords (1 <<< k)).length = 8 ^ k := by
      rw [Nat.one_shiftLeft, length_coords_pow]
    have hdiv := Nat.div_add_mod' pop (8 ^ k)
    have hmod := Nat.mod_lt pop (show 0 < 8 ^ k by positivity)
    rw [one_shiftLeft_three_mul, sum_subChunks (by rw [hlen]; omega), hlen]
    omega

/-- No estimate exceeds the target, unless the split hit its cap. -/
lemma pointCount_emitted {pop : ℕ} {v : VoxelKey} (hv : v.level = gridDepth ∨ pop ≤ chunkTarget)
    {c : PlannedChunk} (hc : c ∈ emitted gridDepth chunkTarget pop v) :
    c.pointCount ≤ chunkTarget ∨
      (v.level = gridDepth ∧ chunkTarget * 8 ^ splitLevelCap < pop) := by
  unfold emitted emitChunkRoot at hc
  simp only at hc
  rw [← emitDepth] at hc
  have hleast : v.level = gridDepth →
      LeastSplit pop chunkTarget (emitDepth gridDepth chunkTarget pop v) := fun hl => by
    rw [emitDepth, if_pos hl]
    exact splitExtraLevels_least pop chunkTarget
  by_cases hover : v.level = gridDepth ∧ chunkTarget * 8 ^ splitLevelCap < pop
  · exact Or.inr hover
  · apply Or.inl
    split_ifs at hc with h
    · obtain rfl := List.mem_singleton.mp hc
      rcases hv with hl | hle
      · have := (hleast hl).2.2
        rw [h] at this
        simpa [splitLevelCap] using this
      · exact hle
    · set k := emitDepth gridDepth chunkTarget pop v
      have hl : v.level = gridDepth := by
        by_contra hne
        exact h (if_neg hne)
      have hfits : pop ≤ chunkTarget * 8 ^ k := by
        rcases (hleast hl).2.2 with hcap | hle
        · rw [hcap]
          exact not_lt.mp fun hlt => hover ⟨hl, hlt⟩
        · exact hle
      have hdiv := Nat.div_add_mod' pop (8 ^ k)
      have hest : pop / 8 ^ k ≤ chunkTarget := Nat.div_le_of_le_mul (by rwa [mul_comm])
      rw [one_shiftLeft_three_mul] at hc
      rcases pointCount_subChunks hc with hle | ⟨hr, he⟩
      · exact hle.trans hest
      · -- with a remainder the even share is strictly below the target
        rw [he]
        have hlt : pop / 8 ^ k * 8 ^ k < chunkTarget * 8 ^ k := by omega
        exact Nat.lt_of_mul_lt_mul_right hlt

/-! ## The emitting voxels -/

/-- A voxel emits when it holds points, is not itself too full to be one chunk (unless it cannot be
divided in the grid), and could not be merged into its parent. -/
def IsEmitter (grid : ℕ → UInt32) (gridDepth chunkTarget : ℕ) (v : VoxelKey) : Prop :=
  v.InOctree ∧ v.level ≤ gridDepth ∧ 0 < cellTotal grid gridDepth v ∧
    (v.level = gridDepth ∨ cellTotal grid gridDepth v ≤ chunkTarget) ∧
      ∀ p, v.parent = some p → chunkTarget < cellTotal grid gridDepth p

/-- The voxels of level `l + 1`, in the order in which the collapse goes through them. -/
def levelVoxels (l : ℕ) : List VoxelKey :=
  (coords (2 ^ l)).flatMap fun p => (coords 2).map fun d =>
    ⟨l + 1, (childCell p d).1, (childCell p d).2.1, (childCell p d).2.2⟩

/-- The voxel is emitted when its parent is collapsed. -/
def emits (grid : ℕ → UInt32) (gridDepth chunkTarget : ℕ) (v : VoxelKey) : Bool :=
  decide (0 < cellValue grid gridDepth chunkTarget (gridDepth - v.level) (v.x, v.y, v.z)) &&
    match v.parent with
    | some p => decide (chunkTarget < cellTotal grid gridDepth p)
    | none => true

/-- The emitting voxels of the levels `l` down to 1. -/
def emittersBelow (grid : ℕ → UInt32) (gridDepth chunkTarget : ℕ) : ℕ → List VoxelKey
  | 0 => []
  | l + 1 => (levelVoxels l).filter (emits grid gridDepth chunkTarget) ++
      emittersBelow grid gridDepth chunkTarget l

/-- All emitting voxels, in the order of emission. -/
def emitters (grid : ℕ → UInt32) (gridDepth chunkTarget : ℕ) : List VoxelKey :=
  emittersBelow grid gridDepth chunkTarget gridDepth ++
    if emits grid gridDepth chunkTarget VoxelKey.root then [VoxelKey.root] else []

lemma childCell_injOn {p p' d d' : ℕ × ℕ × ℕ} (hd : d ∈ coords 2) (hd' : d' ∈ coords 2)
    (h : childCell p d = childCell p' d') : p = p' ∧ d = d' := by
  obtain ⟨px, py, pz⟩ := p
  obtain ⟨px', py', pz'⟩ := p'
  obtain ⟨dx, dy, dz⟩ := d
  obtain ⟨dx', dy', dz'⟩ := d'
  have h1 := mem_coords_two hd
  have h2 := mem_coords_two hd'
  simp only [childCell, Prod.mk.injEq] at *
  omega

lemma mem_levelVoxels {l : ℕ} {v : VoxelKey} :
    v ∈ levelVoxels l ↔ v.level = l + 1 ∧ v.InOctree := by
  obtain ⟨lv, x, y, z⟩ := v
  simp only [levelVoxels, List.mem_flatMap, List.mem_map, VoxelKey.InOctree, VoxelKey.mk.injEq]
  constructor
  · rintro ⟨p, hp, d, hd, rfl, rfl, rfl, rfl⟩
    have h1 := mem_coords.mp hp
    have h2 := mem_coords_two hd
    simp only [childCell, pow_succ, true_and]
    omega
  · rintro ⟨rfl, hx, hy, hz⟩
    simp only [pow_succ] at hx hy hz
    refine ⟨(x / 2, y / 2, z / 2), mem_coords.mpr (by simp only; omega), (x % 2, y % 2, z % 2),
      mem_coords.mpr (by simp only; omega), rfl, ?_⟩
    simp only [childCell]
    omega

lemma nodup_levelVoxels (l : ℕ) : (levelVoxels l).Nodup := by
  refine List.nodup_flatMap.mpr ⟨fun p _ => ?_, ?_⟩
  · refine (nodup_coords 2).map_on fun d hd d' hd' h => ?_
    simp only [VoxelKey.mk.injEq, true_and] at h
    exact (childCell_injOn hd hd' (Prod.ext h.1 (Prod.ext h.2.1 h.2.2))).2
  · refine (nodup_coords _).pairwise_of_forall_ne fun p _ p' _ hne v hv hv' => ?_
    obtain ⟨d, hd, rfl⟩ := List.mem_map.mp hv
    obtain ⟨d', hd', h⟩ := List.mem_map.mp hv'
    simp only [VoxelKey.mk.injEq, true_and] at h
    exact hne (childCell_injOn hd' hd (Prod.ext h.1 (Prod.ext h.2.1 h.2.2))).1.symm

lemma emits_iff {v : VoxelKey} (hv : v.InOctree)
    (hl : v.level ≤ gridDepth) :
    emits grid gridDepth chunkTarget v = true ↔ IsEmitter grid gridDepth chunkTarget v := by
  have hn : gridDepth - v.level = 0 ↔ v.level = gridDepth := by omega
  unfold emits IsEmitter
  rw [Bool.and_eq_true, decide_eq_true_eq, cellValue_pos, hn, ← cellTotal]
  cases hp : v.parent with
  | none => simp [hv, hl]
  | some p => simp [hv, hl, and_assoc]

lemma mem_emittersBelow {l : ℕ} (hl : l ≤ gridDepth) {v : VoxelKey} :
    v ∈ emittersBelow grid gridDepth chunkTarget l ↔
      0 < v.level ∧ v.level ≤ l ∧ IsEmitter grid gridDepth chunkTarget v := by
  induction l with
  | zero =>
    simp only [emittersBelow, List.not_mem_nil, false_iff]
    omega
  | succ l ih =>
    rw [emittersBelow, List.mem_append, ih (by omega), List.mem_filter, mem_levelVoxels]
    constructor
    · rintro (⟨⟨hvl, hv⟩, he⟩ | ⟨h0, hvl, he⟩)
      · exact ⟨by omega, by omega, (emits_iff hv (by omega)).mp he⟩
      · exact ⟨h0, by omega, he⟩
    · rintro ⟨h0, hvl, he⟩
      by_cases hlast : v.level = l + 1
      · exact Or.inl ⟨⟨hlast, he.1⟩, (emits_iff he.1 (by omega)).mpr he⟩
      · exact Or.inr ⟨h0, by omega, he⟩

lemma inOctree_root : VoxelKey.root.InOctree := by
  simp [VoxelKey.InOctree, VoxelKey.root]

lemma eq_root_of_level {v : VoxelKey} (hv : v.InOctree) (h : v.level = 0) : v = VoxelKey.root := by
  obtain ⟨l, x, y, z⟩ := v
  obtain rfl : l = 0 := h
  simpa [VoxelKey.InOctree, VoxelKey.root] using hv

/-- The list of emitting voxels holds exactly these. -/
lemma mem_emitters {v : VoxelKey} :
    v ∈ emitters grid gridDepth chunkTarget ↔ IsEmitter grid gridDepth chunkTarget v := by
  rw [emitters, List.mem_append, mem_emittersBelow le_rfl]
  constructor
  · rintro (⟨-, -, he⟩ | hv)
    · exact he
    · split_ifs at hv with he
      · rw [List.mem_singleton.mp hv]
        exact (emits_iff inOctree_root (Nat.zero_le _)).mp he
      · cases hv
  · intro he
    by_cases h0 : v.level = 0
    · obtain rfl := eq_root_of_level he.1 h0
      right
      rw [if_pos ((emits_iff inOctree_root (Nat.zero_le _)).mpr he)]
      exact List.mem_singleton_self _
    · exact Or.inl ⟨by omega, he.2.1, he⟩

lemma nodup_emitters (grid : ℕ → UInt32) (gridDepth chunkTarget : ℕ) :
    (emitters grid gridDepth chunkTarget).Nodup := by
  have hbelow : ∀ l, l ≤ gridDepth → (emittersBelow grid gridDepth chunkTarget l).Nodup := by
    intro l
    induction l with
    | zero => exact fun _ => List.nodup_nil
    | succ l ih =>
      intro hl
      refine List.nodup_append.mpr ⟨(nodup_levelVoxels l).filter _, ih (by omega), ?_⟩
      intro v hv w hw he
      have h1 := (mem_levelVoxels.mp (List.mem_filter.mp hv).1).1
      have h2 := ((mem_emittersBelow (by omega)).mp hw).2.1
      rw [he] at h1
      omega
  refine List.nodup_append.mpr ⟨hbelow gridDepth le_rfl, ?_, ?_⟩
  · split_ifs
    · exact List.nodup_singleton _
    · exact List.nodup_nil
  · intro v hv w hw he
    have h1 := ((mem_emittersBelow le_rfl).mp hv).1
    split_ifs at hw
    · rw [he, List.mem_singleton.mp hw] at h1
      exact absurd h1 (lt_irrefl 0)
    · cases hw

/-- Emitting voxels are not nested. -/
lemma IsEmitter.eq_of_isAncestor {a v : VoxelKey} (ha : IsEmitter grid gridDepth chunkTarget a)
    (hv : IsEmitter grid gridDepth chunkTarget v) (h : IsAncestor a v) : a = v := by
  by_contra hne
  have hlt : a.level < v.level := (h.proper hne).1
  have hvl := hv.2.1
  have hp := VoxelKey.parent_of_level_ne_zero (k := v) (by omega)
  have hchild := VoxelKey.isChild_iff.mpr hp
  -- the parent of the lower one is over the target, so the upper one is as well
  have hap := h.of_level_le hchild.isProperAncestor.isAncestor
    (by rw [VoxelKey.level_eq, VoxelKey.level_eq]; simp only; omega)
  have hle : cellTotal grid gridDepth ⟨v.level - 1, v.x / 2, v.y / 2, v.z / 2⟩ ≤
      cellTotal grid gridDepth a := cellTotal_le_of_isAncestor (by simp only; omega) hap
  have hover := hv.2.2.2.2 _ hp
  rcases ha.2.2.2.1 with hal | hal
  · omega
  · omega

/-- Merging upwards from a counted voxel that fits the target, or from a finest cell, ends at an
emitting voxel. -/
lemma exists_emitter {v : VoxelKey} (hv : v.InOctree) (hl : v.level ≤ gridDepth)
    (hpos : 0 < cellTotal grid gridDepth v)
    (hfits : v.level = gridDepth ∨ cellTotal grid gridDepth v ≤ chunkTarget) :
    ∃ e, IsEmitter grid gridDepth chunkTarget e ∧ IsAncestor e v := by
  induction hn : v.level generalizing v with
  | zero =>
    refine ⟨v, ⟨hv, hl, hpos, hfits, fun p hp => ?_⟩, IsAncestor.refl v⟩
    rw [VoxelKey.parent_eq_none.mpr hn] at hp
    cases hp
  | succ n ih =>
    have hp := VoxelKey.parent_of_level_ne_zero (k := v) (by omega)
    have hle : cellTotal grid gridDepth v ≤ cellTotal grid gridDepth
        ⟨v.level - 1, v.x / 2, v.y / 2, v.z / 2⟩ := cellTotal_le_of_parent hl hp
    by_cases hover : chunkTarget < cellTotal grid gridDepth
        ⟨v.level - 1, v.x / 2, v.y / 2, v.z / 2⟩
    · refine ⟨v, ⟨hv, hl, hpos, hfits, fun q hq => ?_⟩, IsAncestor.refl v⟩
      rw [hp] at hq
      rwa [← Option.some.inj hq]
    · -- the parent still fits the target
      have hin : VoxelKey.InOctree ⟨v.level - 1, v.x / 2, v.y / 2, v.z / 2⟩ := by
        unfold VoxelKey.InOctree at *
        rw [hn, pow_succ] at hv
        simp only [hn, Nat.add_sub_cancel]
        omega
      obtain ⟨e, he, hev⟩ := ih hin (by simp only; omega) (hpos.trans_le hle)
        (Or.inr (not_lt.mp hover)) (by simp only; omega)
      exact ⟨e, he, hev.trans (VoxelKey.isChild_iff.mpr hp).isProperAncestor.isAncestor⟩

/-! ## The plan -/

lemma flatMap_filter {α β : Type*} (q : α → Bool) (g : α → List β) (l : List α) :
    (l.filter q).flatMap g = l.flatMap fun x => if q x then g x else [] := by
  induction l with
  | nil => rfl
  | cons x l ih =>
    rw [List.filter_cons, List.flatMap_cons, ← ih]
    split_ifs
    · rw [List.flatMap_cons]
    · rfl

/-- When a child of the cell `p` emits. -/
lemma emits_child {l : ℕ} (hl : l + 1 ≤ gridDepth) (p : ℕ × ℕ × ℕ) {d : ℕ × ℕ × ℕ}
    (hd : d ∈ coords 2) : emits grid gridDepth chunkTarget ⟨l + 1, (childCell p d).1,
      (childCell p d).2.1, (childCell p d).2.2⟩ =
        (decide (0 < cellValue grid gridDepth chunkTarget (gridDepth - (l + 1)) (childCell p d)) &&
          decide (chunkTarget < voxelTotal grid gridDepth (gridDepth - (l + 1) + 1) p)) := by
  have hn : gridDepth - (l + 1) + 1 = gridDepth - l := by omega
  have h2 := mem_coords_two hd
  have hparent : (⟨l + 1, (childCell p d).1, (childCell p d).2.1, (childCell p d).2.2⟩ :
      VoxelKey).parent = some ⟨l, p.1, p.2.1, p.2.2⟩ := by
    rw [VoxelKey.parent_of_level_ne_zero (by simp only; omega)]
    simp only [childCell, Option.some.injEq, VoxelKey.mk.injEq]
    omega
  rw [emits, hparent]
  simp only [cellTotal, hn]
  rfl

/-- The chunks that collapsing a level emits are those of its emitting voxels. -/
lemma levelVoxels_chunks {l : ℕ} (hl : l + 1 ≤ gridDepth) :
    (coords (2 ^ l)).flatMap (parentChunks grid gridDepth chunkTarget (l + 1)
        (gridDepth - (l + 1))) =
      ((levelVoxels l).filter (emits grid gridDepth chunkTarget)).flatMap fun v =>
        emitted gridDepth chunkTarget (cellTotal grid gridDepth v) v := by
  rw [flatMap_filter, levelVoxels, List.flatMap_assoc]
  refine List.flatMap_congr fun p _ => ?_
  rw [List.flatMap_map]
  unfold parentChunks
  by_cases hover : chunkTarget < voxelTotal grid gridDepth (gridDepth - (l + 1) + 1) p
  · rw [if_pos hover]
    refine List.flatMap_congr fun d hd => ?_
    rw [emits_child hl p hd, decide_eq_true hover, Bool.and_true]
    simp only [decide_eq_true_eq]
    rfl
  · rw [if_neg hover]
    refine (List.flatMap_eq_nil_iff.mpr fun d hd => ?_).symm
    rw [emits_child hl p hd, decide_eq_false hover, Bool.and_false]
    rfl

/-- Collapsing all levels from `l` down. -/
lemma collapseLevels_eq {l : ℕ} (hl : l ≤ gridDepth) {current : ℕ → ℤ}
    (h : HoldsLevel grid gridDepth chunkTarget (gridDepth - l) (2 ^ l) current)
    (chunks : List PlannedChunk) :
    HoldsLevel grid gridDepth chunkTarget gridDepth 1
        (collapseLevels gridDepth chunkTarget l (2 ^ l) current chunks).1 ∧
      (collapseLevels gridDepth chunkTarget l (2 ^ l) current chunks).2 = chunks ++
        (emittersBelow grid gridDepth chunkTarget l).flatMap fun v =>
          emitted gridDepth chunkTarget (cellTotal grid gridDepth v) v := by
  induction l generalizing current chunks with
  | zero => exact ⟨h, by simp [collapseLevels, emittersBelow]⟩
  | succ l ih =>
    have hhalf : 2 * 2 ^ l / 2 = 2 ^ l := by omega
    rw [pow_succ'] at h ⊢
    obtain ⟨h1, h2⟩ := collapseLevel_eq (l + 1) h chunks
    have hn : gridDepth - (l + 1) + 1 = gridDepth - l := by omega
    rw [hn] at h1
    obtain ⟨ih1, ih2⟩ := ih (by omega) h1
      (collapseLevel gridDepth chunkTarget (l + 1) (2 * 2 ^ l) current chunks).2
    rw [collapseLevels, hhalf]
    refine ⟨ih1, ih2.trans ?_⟩
    rw [h2, levelVoxels_chunks hl, emittersBelow, List.flatMap_append, List.append_assoc]

/-- The plan lists the chunks of the emitting voxels. -/
theorem mergeSparseCells_eq (grid : ℕ → UInt32) (gridDepth chunkTarget : ℕ) :
    mergeSparseCells grid (2 ^ gridDepth) gridDepth chunkTarget =
      (emitters grid gridDepth chunkTarget).flatMap fun v =>
        emitted gridDepth chunkTarget (cellTotal grid gridDepth v) v := by
  have hstart : HoldsLevel grid gridDepth chunkTarget (gridDepth - gridDepth) (2 ^ gridDepth)
      fun i => ((grid i).toNat : ℤ) := fun c _ => by
    rw [Nat.sub_self, cellValue, if_neg fun h => absurd h.1 (lt_irrefl 0), voxelTotal]
  obtain ⟨h1, h2⟩ := collapseLevels_eq le_rfl hstart []
  have hroot : (collapseLevels gridDepth chunkTarget gridDepth (2 ^ gridDepth)
      (fun i => ((grid i).toNat : ℤ)) []).1 0 =
      cellValue grid gridDepth chunkTarget gridDepth (0, 0, 0) := h1 (0, 0, 0) (by simp)
  have hemits : emits grid gridDepth chunkTarget VoxelKey.root =
      decide (0 < cellValue grid gridDepth chunkTarget gridDepth (0, 0, 0)) := Bool.and_true _
  unfold mergeSparseCells
  simp only [hroot, h2, List.nil_append]
  rw [emitters, List.flatMap_append, hemits]
  by_cases hpos : 0 < cellValue grid gridDepth chunkTarget gridDepth (0, 0, 0)
  · rw [if_pos hpos, decide_eq_true hpos, if_pos rfl, cellValue_toNat hpos]
    simp only [List.flatMap_cons, List.flatMap_nil, List.append_nil]
    rfl
  · rw [if_neg hpos, decide_eq_false hpos]
    simp

/-! ## The plan as a set of voxels -/

/-- A planned voxel lies below the voxel that emitted it, at that voxel's split depth. -/
lemma mem_plan_keys {v : VoxelKey} :
    v ∈ (mergeSparseCells grid (2 ^ gridDepth) gridDepth chunkTarget).map PlannedChunk.key ↔
      ∃ e, IsEmitter grid gridDepth chunkTarget e ∧ IsAncestor e v ∧
        v.level = e.level + emitDepth gridDepth chunkTarget (cellTotal grid gridDepth e) e := by
  rw [mergeSparseCells_eq, List.map_flatMap, List.mem_flatMap]
  simp only [mem_emitters, map_key_emitted, List.mem_map]
  constructor
  · rintro ⟨e, he, s, hs, rfl⟩
    exact ⟨e, he, isAncestor_subKey e hs, rfl⟩
  · rintro ⟨e, he, hev, hl⟩
    obtain ⟨s, hs, hv⟩ := exists_subKey hev hl
    exact ⟨e, he, s, hs, hv⟩

/-- No planned voxel is an ancestor of another. -/
lemma plan_antichain {a v : VoxelKey}
    (ha : a ∈ (mergeSparseCells grid (2 ^ gridDepth) gridDepth chunkTarget).map PlannedChunk.key)
    (hv : v ∈ (mergeSparseCells grid (2 ^ gridDepth) gridDepth chunkTarget).map PlannedChunk.key)
    (h : IsAncestor a v) : a = v := by
  obtain ⟨e, he, hea, hal⟩ := mem_plan_keys.mp ha
  obtain ⟨e', he', hev, hvl⟩ := mem_plan_keys.mp hv
  have hee : e = e' := by
    rcases Nat.le_total e.level e'.level with hle | hle
    · exact he.eq_of_isAncestor he' ((hea.trans h).of_level_le hev hle)
    · exact (he'.eq_of_isAncestor he (hev.of_level_le (hea.trans h) hle)).symm
  subst hee
  exact h.eq_of_level (hal.trans hvl.symm)

/-- Every voxel is planned once. -/
lemma nodup_plan_keys (grid : ℕ → UInt32) (gridDepth chunkTarget : ℕ) :
    ((mergeSparseCells grid (2 ^ gridDepth) gridDepth chunkTarget).map PlannedChunk.key).Nodup := by
  rw [mergeSparseCells_eq, List.map_flatMap]
  refine List.nodup_flatMap.mpr ⟨fun e _ => ?_, ?_⟩
  · rw [map_key_emitted]
    exact (nodup_coords _).map (subKey_injective e _)
  · refine (nodup_emitters grid gridDepth chunkTarget).pairwise_of_forall_ne
      fun e he e' he' hne v hv hv' => hne ?_
    simp only [map_key_emitted] at hv hv'
    obtain ⟨s, hs, rfl⟩ := List.mem_map.mp hv
    obtain ⟨s', hs', hv'⟩ := List.mem_map.mp hv'
    have h1 := isAncestor_subKey e hs
    have h2 := isAncestor_subKey e' hs'
    rw [hv'] at h2
    rcases Nat.le_total e.level e'.level with hle | hle
    · exact (mem_emitters.mp he).eq_of_isAncestor (mem_emitters.mp he') (h1.of_level_le h2 hle)
    · exact ((mem_emitters.mp he').eq_of_isAncestor (mem_emitters.mp he)
        (h2.of_level_le h1 hle)).symm

lemma sum_map_filter {α : Type*} (q : α → Bool) (f : α → ℕ) (l : List α) :
    ((l.filter q).map f).sum = (l.map fun x => if q x then f x else 0).sum := by
  induction l with
  | nil => rfl
  | cons x l ih =>
    rw [List.filter_cons, List.map_cons, List.sum_cons, ← ih]
    split_ifs
    · rw [List.map_cons, List.sum_cons]
    · rw [Nat.zero_add]

lemma sum_flatMap_map {α β : Type*} (l : List α) (g : α → List β) (f : β → ℕ) :
    ((l.flatMap g).map f).sum = (l.map fun a => ((g a).map f).sum).sum := by
  rw [List.map_flatMap, List.flatMap_def, List.sum_flatten, List.map_map]
  rfl

/-- The count of a voxel of the collapse that is not blocked. -/
def openTotal (grid : ℕ → UInt32) (gridDepth chunkTarget n : ℕ) (c : ℕ × ℕ × ℕ) : ℕ :=
  if 0 < cellValue grid gridDepth chunkTarget n c then voxelTotal grid gridDepth n c else 0

/-- Collapsing a parent passes on what it does not emit. -/
lemma sum_openTotal {n : ℕ} (p : ℕ × ℕ × ℕ) :
    ((coords 2).map fun d => openTotal grid gridDepth chunkTarget n (childCell p d)).sum =
      (if chunkTarget < voxelTotal grid gridDepth (n + 1) p then
        ((coords 2).map fun d => openTotal grid gridDepth chunkTarget n (childCell p d)).sum
          else 0) + openTotal grid gridDepth chunkTarget (n + 1) p := by
  split_ifs with hover
  · have hclosed : ¬ 0 < cellValue grid gridDepth chunkTarget (n + 1) p := fun hpos => by
      rcases (cellValue_pos.mp hpos).2 with h | h
      · omega
      · omega
    rw [openTotal, if_neg hclosed, Nat.add_zero]
  · have hself : openTotal grid gridDepth chunkTarget (n + 1) p =
        voxelTotal grid gridDepth (n + 1) p := by
      unfold openTotal
      split_ifs with hpos
      · rfl
      · have := mt cellValue_pos.mpr hpos
        omega
    rw [hself, voxelTotal, Nat.zero_add]
    refine congrArg List.sum (List.map_congr_left fun d hd => ?_)
    have hle : voxelTotal grid gridDepth n (childCell p d) ≤ voxelTotal grid gridDepth (n + 1) p :=
      voxelTotal_child_le hd
    unfold openTotal
    split_ifs with hpos
    · rfl
    · have := mt cellValue_pos.mpr hpos
      omega

/-- The totals of the emitting voxels of the levels down to 1, and of the root, make up what the
collapse has not emitted at level `l`. -/
lemma sum_emittersBelow (grid : ℕ → UInt32) (chunkTarget : ℕ) {l : ℕ} (hl : l ≤ gridDepth) :
    ((emittersBelow grid gridDepth chunkTarget l).map (cellTotal grid gridDepth)).sum +
        openTotal grid gridDepth chunkTarget gridDepth (0, 0, 0) =
      ((coords (2 ^ l)).map (openTotal grid gridDepth chunkTarget (gridDepth - l))).sum := by
  induction l with
  | zero => simp [emittersBelow]
  | succ l ih =>
    have hn : gridDepth - (l + 1) + 1 = gridDepth - l := by omega
    have hlevel : (((levelVoxels l).filter (emits grid gridDepth chunkTarget)).map
        (cellTotal grid gridDepth)).sum = ((coords (2 ^ l)).map fun p =>
          if chunkTarget < voxelTotal grid gridDepth (gridDepth - (l + 1) + 1) p then
            ((coords 2).map fun d => openTotal grid gridDepth chunkTarget (gridDepth - (l + 1))
              (childCell p d)).sum else 0).sum := by
      rw [sum_map_filter, levelVoxels, sum_flatMap_map]
      refine congrArg List.sum (List.map_congr_left fun p _ => ?_)
      rw [List.map_map]
      split_ifs with hover
      · refine congrArg List.sum (List.map_congr_left fun d hd => ?_)
        simp only [Function.comp_apply]
        rw [emits_child hl p hd, decide_eq_true hover, Bool.and_true, openTotal]
        simp only [decide_eq_true_eq]
        rfl
      · refine List.sum_eq_zero fun x hx => ?_
        obtain ⟨d, hd, rfl⟩ := List.mem_map.mp hx
        simp only [Function.comp_apply]
        rw [emits_child hl p hd, decide_eq_false hover, Bool.and_false]
        rfl
    rw [emittersBelow, List.map_append, List.sum_append, add_assoc, ih (by omega), hlevel, ← hn,
      ← List.sum_map_add, pow_succ', sum_coords_double]
    refine congrArg List.sum (List.map_congr_left fun p _ => ?_)
    rw [← sum_openTotal]
    refine congrArg List.sum (List.map_congr_left fun d _ => ?_)
    simp only [childCell, mul_comm]

/-- The finest cells are all open. -/
lemma openTotal_zero (c : ℕ × ℕ × ℕ) : openTotal grid gridDepth chunkTarget 0 c =
    (grid (flat (2 ^ gridDepth) c)).toNat := by
  unfold openTotal
  split_ifs with hpos
  · rfl
  · have := mt cellValue_pos.mpr hpos
    rw [voxelTotal] at this
    omega

/-- The estimates of the plan add up to the grid total. -/
lemma sum_plan (grid : ℕ → UInt32) (gridDepth chunkTarget : ℕ) :
    ((mergeSparseCells grid (2 ^ gridDepth) gridDepth chunkTarget).map
        PlannedChunk.pointCount).sum =
      ∑ i ∈ Finset.range (2 ^ gridDepth * 2 ^ gridDepth * 2 ^ gridDepth), (grid i).toNat := by
  have hbelow := sum_emittersBelow grid chunkTarget (le_refl gridDepth)
  have hemits : emits grid gridDepth chunkTarget VoxelKey.root =
      decide (0 < cellValue grid gridDepth chunkTarget gridDepth (0, 0, 0)) := Bool.and_true _
  have hfinest : openTotal grid gridDepth chunkTarget 0 = fun c =>
      (grid (flat (2 ^ gridDepth) c)).toNat := funext openTotal_zero
  rw [Nat.sub_self, hfinest] at hbelow
  rw [sum_flat (2 ^ gridDepth) fun i => (grid i).toNat] at hbelow
  rw [mergeSparseCells_eq, sum_flatMap_map, ← hbelow]
  simp only [sum_emitted, emitters, List.map_append, List.sum_append, hemits, decide_eq_true_eq]
  unfold openTotal
  split_ifs
  · simp only [List.map_cons, List.map_nil, List.sum_cons, List.sum_nil]
    rfl
  · rfl

/-- A voxel that could be merged with its siblings no further, and fits the target. -/
def IsMerged (grid : ℕ → UInt32) (gridDepth chunkTarget : ℕ) (v : VoxelKey) : Prop :=
  v.InOctree ∧ v.level ≤ gridDepth ∧ 0 < cellTotal grid gridDepth v ∧
    cellTotal grid gridDepth v ≤ chunkTarget ∧
      (v.level = 0 ∨ ∃ p, v.parent = some p ∧ chunkTarget < cellTotal grid gridDepth p)

/-- A finest cell that exceeds the target. -/
def IsOverfull (grid : ℕ → UInt32) (gridDepth chunkTarget : ℕ) (cell : VoxelKey) : Prop :=
  cell.InOctree ∧ cell.level = gridDepth ∧ chunkTarget < cellTotal grid gridDepth cell

/-- A voxel at the split depth below a finest cell that exceeds the target. -/
def IsSplit (grid : ℕ → UInt32) (gridDepth chunkTarget : ℕ) (v : VoxelKey) : Prop :=
  ∃ cell k, IsOverfull grid gridDepth chunkTarget cell ∧
    LeastSplit (cellTotal grid gridDepth cell) chunkTarget k ∧
      IsAncestor cell v ∧ v.level = gridDepth + k

/-- The planned voxels are the merged and the split ones. -/
lemma mem_plan_iff {v : VoxelKey} :
    v ∈ (mergeSparseCells grid (2 ^ gridDepth) gridDepth chunkTarget).map PlannedChunk.key ↔
      IsMerged grid gridDepth chunkTarget v ∨ IsSplit grid gridDepth chunkTarget v := by
  rw [mem_plan_keys]
  constructor
  · rintro ⟨e, he, hev, hl⟩
    obtain ⟨hin, hle, hpos, hfits, hparent⟩ := he
    by_cases hover : cellTotal grid gridDepth e ≤ chunkTarget
    · have hdepth : emitDepth gridDepth chunkTarget (cellTotal grid gridDepth e) e = 0 := by
        unfold emitDepth
        rw [splitExtraLevels_eq_zero hover, ite_self]
      rw [hdepth, Nat.add_zero] at hl
      obtain rfl := hev.eq_of_level hl.symm
      refine Or.inl ⟨hin, hle, hpos, hover, ?_⟩
      by_cases h0 : e.level = 0
      · exact Or.inl h0
      · exact Or.inr ⟨_, VoxelKey.parent_of_level_ne_zero h0,
          hparent _ (VoxelKey.parent_of_level_ne_zero h0)⟩
    · have hel : e.level = gridDepth := hfits.resolve_right hover
      refine Or.inr ⟨e, _, ⟨hin, hel, not_le.mp hover⟩, splitExtraLevels_least _ _, hev, ?_⟩
      rw [hl, emitDepth, if_pos hel, hel]
  · rintro (⟨hin, hle, hpos, hfits, hparent⟩ | ⟨cell, k, ⟨hin, hcl, hover⟩, hk, hcv, hl⟩)
    · refine ⟨v, ⟨hin, hle, hpos, Or.inr hfits, fun p hp => ?_⟩, IsAncestor.refl v, ?_⟩
      · rcases hparent with h0 | ⟨q, hq, hover⟩
        · rw [VoxelKey.parent_eq_none.mpr h0] at hp
          cases hp
        · rw [hp] at hq
          rwa [Option.some.inj hq]
      · unfold emitDepth
        rw [splitExtraLevels_eq_zero hfits, ite_self, Nat.add_zero]
    · refine ⟨cell, ⟨hin, hcl.le, by omega, Or.inl hcl, fun p hp => ?_⟩, hcv, ?_⟩
      · exact hover.trans_le (cellTotal_le_of_parent hcl.le hp)
      · rw [emitDepth, if_pos hcl, (splitExtraLevels_least _ _).unique hk, hcl, hl]

/-- What `merge_sparse_cells` plans: the merged and the split voxels, each once and none below
another, with estimates that add up to the grid total and stay within the target unless their cell
exceeds even the capped split. -/
theorem mergeSparseCells_spec (grid : ℕ → UInt32) (gridDepth chunkTarget : ℕ) :
    (∀ v, v ∈ (mergeSparseCells grid (2 ^ gridDepth) gridDepth chunkTarget).map PlannedChunk.key ↔
      IsMerged grid gridDepth chunkTarget v ∨ IsSplit grid gridDepth chunkTarget v) ∧
    ((mergeSparseCells grid (2 ^ gridDepth) gridDepth chunkTarget).map PlannedChunk.key).Nodup ∧
    (∀ a v, a ∈ (mergeSparseCells grid (2 ^ gridDepth) gridDepth chunkTarget).map
        PlannedChunk.key →
      v ∈ (mergeSparseCells grid (2 ^ gridDepth) gridDepth chunkTarget).map PlannedChunk.key →
      ¬ IsProperAncestor a v) ∧
    ((mergeSparseCells grid (2 ^ gridDepth) gridDepth chunkTarget).map
        PlannedChunk.pointCount).sum =
      ∑ i ∈ Finset.range (2 ^ gridDepth * 2 ^ gridDepth * 2 ^ gridDepth), (grid i).toNat ∧
    ∀ c ∈ mergeSparseCells grid (2 ^ gridDepth) gridDepth chunkTarget,
      c.pointCount ≤ chunkTarget ∨ ∃ cell, cell.level = gridDepth ∧ IsAncestor cell c.key ∧
        chunkTarget * 8 ^ splitLevelCap < cellTotal grid gridDepth cell := by
  refine ⟨fun v => mem_plan_iff, nodup_plan_keys grid gridDepth chunkTarget,
    fun a v ha hv h => ?_, sum_plan grid gridDepth chunkTarget, fun c hc => ?_⟩
  · have hav := plan_antichain ha hv h.isAncestor
    exact h.1.ne (congrArg LevelTree.level hav)
  · rw [mergeSparseCells_eq] at hc
    obtain ⟨e, he, hc⟩ := List.mem_flatMap.mp hc
    refine (pointCount_emitted (mem_emitters.mp he).2.2.2.1 hc).imp_right fun h => ?_
    have hkey := List.mem_map_of_mem (f := PlannedChunk.key) hc
    rw [map_key_emitted] at hkey
    obtain ⟨s, hs, hs'⟩ := List.mem_map.mp hkey
    exact ⟨e, h.1, hs' ▸ isAncestor_subKey e hs, h.2⟩

end CopcConverter
