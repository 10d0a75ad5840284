import Mathlib

/-!
# Cubic grids in flat arrays

The cells of an `n × n × n` grid are kept in a flat array, in the order of a triple loop with `z`
outermost.  Here is the correspondence between the three coordinates of a cell and its place in the
array: `coords` lists the cells in the order of the loop, `flat` is the place, and going through the
list is going through the places in order.

Two kinds of results are drawn from it.  Filling a box of cells row by row, with a slice of the
array for every row, stores the value in exactly the cells of the box.  And a sum over all places is
a sum over all cells, which may be taken eight children at a time when the grid is twice as fine as
another one.  Counting grids, lookup tables and their pyramids are used through these facts.
-/

namespace CubeGrid

/-- The cells of a cubic grid, `x` running fastest. -/
def coords (n : ℕ) : List (ℕ × ℕ × ℕ) :=
  (List.range n).flatMap fun z => (List.range n).flatMap fun y =>
    (List.range n).map fun x => (x, y, z)

/-- The position of a cell in a flat array. -/
def flat (n : ℕ) (c : ℕ × ℕ × ℕ) : ℕ := c.1 + c.2.1 * n + c.2.2 * n * n

@[simp] lemma coords_one : coords 1 = [(0, 0, 0)] := rfl

lemma mem_coords {n : ℕ} {c : ℕ × ℕ × ℕ} : c ∈ coords n ↔ c.1 < n ∧ c.2.1 < n ∧ c.2.2 < n := by
  obtain ⟨x, y, z⟩ := c
  simp only [coords, List.mem_flatMap, List.mem_range, List.mem_map, Prod.mk.injEq]
  constructor
  · rintro ⟨z', hz, y', hy, x', hx, rfl, rfl, rfl⟩
    exact ⟨hx, hy, hz⟩
  · rintro ⟨hx, hy, hz⟩
    exact ⟨z, hz, y, hy, x, hx, rfl, rfl, rfl⟩

/-- The flat index determines the cell. -/
lemma flat_injOn {n : ℕ} {c d : ℕ × ℕ × ℕ} (hc : c ∈ coords n) (hd : d ∈ coords n)
    (h : flat n c = flat n d) : c = d := by
  obtain ⟨x, y, z⟩ := c
  obtain ⟨x', y', z'⟩ := d
  obtain ⟨hx, hy, -⟩ := mem_coords.mp hc
  obtain ⟨hx', hy', -⟩ := mem_coords.mp hd
  simp only [flat] at h hx hy hx' hy'
  -- the index in base `n` has the digits `x`, `y` and `z`
  have hform : ∀ a b c : ℕ, a + b * n + c * n * n = a + n * (b + n * c) := fun a b c => by ring
  rw [hform, hform] at h
  have hxx : x = x' := by
    have := congrArg (· % n) h
    simpa [Nat.mod_eq_of_lt hx, Nat.mod_eq_of_lt hx'] using this
  subst hxx
  have hpos : 0 < n := by omega
  have hrest : y + n * z = y' + n * z' :=
    Nat.eq_of_mul_eq_mul_left hpos (Nat.add_left_cancel h)
  have hyy : y = y' := by
    have := congrArg (· % n) hrest
    simpa [Nat.mod_eq_of_lt hy, Nat.mod_eq_of_lt hy'] using this
  subst hyy
  have hzz : z = z' := Nat.eq_of_mul_eq_mul_left hpos (Nat.add_left_cancel hrest)
  rw [hzz]

lemma nodup_coords (n : ℕ) : (coords n).Nodup := by
  refine List.nodup_flatMap.mpr ⟨fun z _ => List.nodup_flatMap.mpr ⟨fun y _ => ?_, ?_⟩, ?_⟩
  · exact List.nodup_range.map fun x x' h => by simpa using h
  · refine List.nodup_range.pairwise_of_forall_ne fun y _ y' _ hne c hc hc' => ?_
    obtain ⟨x, -, rfl⟩ := List.mem_map.mp hc
    obtain ⟨x', -, he⟩ := List.mem_map.mp hc'
    simp only [Prod.mk.injEq] at he
    exact hne he.2.1.symm
  · refine List.nodup_range.pairwise_of_forall_ne fun z _ z' _ hne c hc hc' => ?_
    obtain ⟨y, -, hy⟩ := List.mem_flatMap.mp hc
    obtain ⟨x, -, rfl⟩ := List.mem_map.mp hy
    obtain ⟨y', -, hy'⟩ := List.mem_flatMap.mp hc'
    obtain ⟨x', -, he⟩ := List.mem_map.mp hy'
    simp only [Prod.mk.injEq] at he
    exact hne he.2.2.symm

lemma length_coords (n : ℕ) : (coords n).length = n * n * n := by
  simp [coords, List.length_flatMap, mul_assoc]

lemma lt_of_flat {n : ℕ} {c : ℕ × ℕ × ℕ} (hc : c ∈ coords n) : flat n c < n * n * n := by
  obtain ⟨x, y, z⟩ := c
  obtain ⟨hx, hy, hz⟩ := mem_coords.mp hc
  simp only [flat] at *
  have h1 : x + y * n < n * n := by nlinarith
  have h2 : z * n * n + n * n ≤ n * n * n := by nlinarith
  omega

/-- Numbering the elements of `a` blocks of `m` one after the other. -/
lemma range_blocks (a m : ℕ) :
    ((List.range a).flatMap fun q => (List.range m).map fun i => i + q * m) =
      List.range (a * m) := by
  induction a with
  | zero => simp
  | succ a ih =>
    rw [List.range_succ, List.flatMap_append, ih, Nat.succ_mul, List.range_add]
    simp [Nat.add_comm]

/-- The cells are listed in the order of their flat indices. -/
lemma map_flat_coords (n : ℕ) : (coords n).map (flat n) = List.range (n * n * n) := by
  have hplane : ∀ z, ((List.range n).flatMap fun y => (List.range n).map fun x =>
      flat n (x, y, z)) = (List.range (n * n)).map fun i => i + z * (n * n) := fun z => by
    rw [← range_blocks n n, List.map_flatMap]
    simp only [List.map_map, flat, Function.comp_def, mul_assoc]
  rw [mul_assoc, ← range_blocks n (n * n), coords, List.map_flatMap]
  simp only [List.map_flatMap, List.map_map, Function.comp_def, hplane]

lemma getElem?_coords {n : ℕ} {c : ℕ × ℕ × ℕ} (hc : c ∈ coords n) :
    (coords n)[flat n c]? = some c := by
  have hlt := lt_of_flat hc
  have hi : flat n c < (coords n).length := by rwa [length_coords]
  have hflat : flat n (coords n)[flat n c] = flat n c := by
    have := congrArg (·[flat n c]?) (map_flat_coords n)
    simp only [List.getElem?_map, List.getElem?_eq_getElem hi, Option.map_some,
      List.getElem?_range hlt] at this
    exact Option.some.inj this
  rw [List.getElem?_eq_getElem hi, flat_injOn (List.getElem_mem hi) hc hflat]

/-! ## Filling boxes -/

section Fill

variable {α : Type*}

/-- Store a value at every index of a list. -/
def fillAt (v : α) (is : List ℕ) (f : ℕ → α) : ℕ → α :=
  is.foldl (fun f i => Function.update f i v) f

lemma fillAt_apply (v : α) (is : List ℕ) (f : ℕ → α) (j : ℕ) :
    fillAt v is f j = if j ∈ is then v else f j := by
  induction is generalizing f with
  | nil => rfl
  | cons i is ih =>
    have hstep : fillAt v (i :: is) f = fillAt v is (Function.update f i v) := rfl
    rw [hstep, ih, Function.update_apply]
    simp only [List.mem_cons]
    by_cases hmem : j ∈ is
    · simp [hmem]
    · simp [hmem]

/-- Store a value in the box between two corners, row by row. -/
def fillBox (n : ℕ) (lo hi : ℕ × ℕ × ℕ) (v : α) (f : ℕ → α) : ℕ → α :=
  (List.range' lo.2.2 (hi.2.2 - lo.2.2)).foldl (fun f z =>
    (List.range' lo.2.1 (hi.2.1 - lo.2.1)).foldl (fun f y =>
      fillAt v (List.range' (flat n (lo.1, y, z)) (hi.1 - lo.1)) f) f) f

/-- Filling a box changes its cells and no others. -/
lemma fillBox_flat {n : ℕ} {lo hi c : ℕ × ℕ × ℕ} (v : α) (f : ℕ → α) (hc : c ∈ coords n)
    (hhi : hi.1 ≤ n ∧ hi.2.1 ≤ n ∧ hi.2.2 ≤ n) :
    fillBox n lo hi v f (flat n c) =
      if (lo.1 ≤ c.1 ∧ c.1 < hi.1) ∧ (lo.2.1 ≤ c.2.1 ∧ c.2.1 < hi.2.1) ∧
        (lo.2.2 ≤ c.2.2 ∧ c.2.2 < hi.2.2) then v else f (flat n c) := by
  -- the three loops visit one list of indices
  have hlist : fillBox n lo hi v f = fillAt v
      ((List.range' lo.2.2 (hi.2.2 - lo.2.2)).flatMap fun z =>
        (List.range' lo.2.1 (hi.2.1 - lo.2.1)).flatMap fun y =>
          List.range' (flat n (lo.1, y, z)) (hi.1 - lo.1)) f := by
    simp only [fillBox, fillAt, List.foldl_flatMap]
  rw [hlist, fillAt_apply]
  refine if_congr ?_ rfl rfl
  simp only [List.mem_flatMap, List.mem_range'_1]
  constructor
  · rintro ⟨z, hz, y, hy, hx⟩
    obtain ⟨i, hi, hflat⟩ : ∃ i, i < hi.1 - lo.1 ∧ flat n c = flat n (lo.1 + i, y, z) := by
      refine ⟨flat n c - flat n (lo.1, y, z), by omega, ?_⟩
      simp only [flat] at hx ⊢
      omega
    have hmem : (lo.1 + i, y, z) ∈ coords n := mem_coords.mpr (by simp only; omega)
    rw [flat_injOn hc hmem hflat]
    simp only
    omega
  · rintro ⟨hx, hy, hz⟩
    refine ⟨c.2.2, by omega, c.2.1, by omega, ?_⟩
    simp only [flat]
    omega

end Fill

/-! ## Sums -/

variable {M : Type*} [AddCommMonoid M]

lemma sum_coords (n : ℕ) (f : ℕ × ℕ × ℕ → M) : ((coords n).map f).sum =
    ∑ z ∈ Finset.range n, ∑ y ∈ Finset.range n, ∑ x ∈ Finset.range n, f (x, y, z) := by
  have hsum : ∀ g : ℕ → M, ((List.range n).map g).sum = ∑ i ∈ Finset.range n, g i := fun _ => rfl
  have hflat : ∀ g : ℕ → List M, ((List.range n).flatMap g).sum =
      ∑ i ∈ Finset.range n, (g i).sum := fun g => by
    rw [List.flatMap_def, List.sum_flatten, List.map_map]
    exact hsum _
  simp only [coords, List.map_flatMap, hflat, List.map_map, hsum, Function.comp_def]

/-- Summing over all cells in the order of the array. -/
lemma sum_flat (n : ℕ) (f : ℕ → M) :
    ((coords n).map fun c => f (flat n c)).sum = ∑ i ∈ Finset.range (n * n * n), f i := by
  have hmap := congrArg (List.map f) (map_flat_coords n)
  rw [List.map_map] at hmap
  exact congrArg List.sum hmap

lemma sum_range_double (n : ℕ) (g : ℕ → M) :
    ∑ i ∈ Finset.range (2 * n), g i = ∑ i ∈ Finset.range n, (g (2 * i) + g (2 * i + 1)) := by
  induction n with
  | zero => rfl
  | succ n ih =>
    rw [Nat.mul_succ, Finset.sum_range_succ, Finset.sum_range_succ, ih, Finset.sum_range_succ,
      add_assoc]

/-- Every cell of the doubled grid is one of the eight children of a cell. -/
lemma sum_coords_double (n : ℕ) (f : ℕ × ℕ × ℕ → M) :
    ((coords (2 * n)).map f).sum = ((coords n).map fun c =>
      ((coords 2).map fun d =>
        f (2 * c.1 + d.1, 2 * c.2.1 + d.2.1, 2 * c.2.2 + d.2.2)).sum).sum := by
  simp only [sum_coords, sum_range_double, Finset.sum_range_succ, Finset.sum_range_zero, zero_add,
    add_zero, Finset.sum_add_distrib]

end CubeGrid
