import CopcConverter.Octree.Int32Build

/-!
# The nodes that are written

`write_copc` sorts the listed nodes once, by level and then by their coordinates, so that a reader
gets to the coarse nodes first.  Everything that follows goes through this one list: the nodes that
are encoded are those of it that have points, in the same order, and the chunk table is assigned to
the nodes by walking the list again.  A node without points is listed for the sake of the nodes
below it; it has no chunk and is not encoded.

The numbers of points come with the list.  They are right when they are read back from the node
store, which is how `build_node_map` gets them; then leaving out the nodes without points leaves out
no point.
-/

namespace CopcConverter

/-- The listed nodes in the order `(level, x, y, z)`, coordinates compared as `i32`. -/
def orderedNodes (nodeKeys : List (VoxelKey × ℕ)) : List (VoxelKey × ℕ) :=
  nodeKeys.mergeSort fun a c => decide (a.1.sortKey32 ≤ c.1.sortKey32)

/-- The nodes that are encoded: those with points. -/
def dataKeys (nodeKeys : List (VoxelKey × ℕ)) : List (VoxelKey × ℕ) :=
  (orderedNodes nodeKeys).filter fun e => e.2 > 0

lemma orderedNodes_perm (nodeKeys : List (VoxelKey × ℕ)) :
    (orderedNodes nodeKeys).Perm nodeKeys := List.mergeSort_perm _ _

/-- Nodes listed in strict order are how their rearrangements are ordered. -/
lemma orderedNodes_eq {nodeKeys ordered : List (VoxelKey × ℕ)} (hperm : ordered.Perm nodeKeys)
    (hordered : ordered.Pairwise fun a c => a.1.sortKey32 < c.1.sortKey32) :
    orderedNodes nodeKeys = ordered := Lists.mergeSort_eq_of_perm hperm hordered

lemma mem_dataKeys {nodeKeys : List (VoxelKey × ℕ)} {e : VoxelKey × ℕ} :
    e ∈ dataKeys nodeKeys ↔ e ∈ nodeKeys ∧ 0 < e.2 := by
  rw [dataKeys, List.mem_filter, (orderedNodes_perm nodeKeys).mem_iff, decide_eq_true_eq]

/-- The points that are written, node after node. -/
def writtenPoints (store : Store) (nodeKeys : List (VoxelKey × ℕ)) : List RawPoint :=
  (dataKeys nodeKeys).flatMap fun e => store e.1

/-- When the counts are right, every point of a listed node is written. -/
lemma mem_writtenPoints {store : Store} {nodeKeys : List (VoxelKey × ℕ)}
    (hcount : ∀ e ∈ nodeKeys, e.2 = (store e.1).length) {p : RawPoint} :
    p ∈ writtenPoints store nodeKeys ↔ ∃ e ∈ nodeKeys, p ∈ store e.1 := by
  rw [writtenPoints, List.mem_flatMap]
  constructor
  · rintro ⟨e, he, hp⟩
    exact ⟨e, (mem_dataKeys.mp he).1, hp⟩
  · rintro ⟨e, he, hp⟩
    refine ⟨e, mem_dataKeys.mpr ⟨he, ?_⟩, hp⟩
    rw [hcount e he]
    exact List.length_pos_of_mem hp

/-- When the counts are right, leaving out nodes without points leaves out no point. -/
lemma writtenPoints_eq {store : Store} {nodeKeys : List (VoxelKey × ℕ)}
    (hcount : ∀ e ∈ nodeKeys, e.2 = (store e.1).length) :
    writtenPoints store nodeKeys = (orderedNodes nodeKeys).flatMap fun e => store e.1 := by
  have hall : ∀ nodes : List (VoxelKey × ℕ), (∀ e ∈ nodes, e.2 = (store e.1).length) →
      ((nodes.filter fun e => e.2 > 0).flatMap fun e => store e.1) =
        nodes.flatMap fun e => store e.1 := by
    intro nodes hnodes
    induction nodes with
    | nil => rfl
    | cons e nodes ih =>
      have hrest := ih fun c hc => hnodes c (List.mem_cons_of_mem _ hc)
      by_cases hpos : e.2 > 0
      · rw [List.filter_cons_of_pos (by simpa using hpos), List.flatMap_cons, List.flatMap_cons,
          hrest]
      · have hnil : store e.1 = [] := by
          rw [← List.length_eq_zero_iff, ← hnodes e List.mem_cons_self]
          omega
        rw [List.filter_cons_of_neg (by simpa using hpos), List.flatMap_cons, hnil,
          List.nil_append, hrest]
  exact hall _ fun e he => hcount e ((orderedNodes_perm nodeKeys).mem_iff.mp he)

end CopcConverter
