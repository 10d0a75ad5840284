import CopcConverter.Foundations.Binary64
import CopcConverter.Foundations.Lists
import CopcConverter.Writer.DataKeys

/-!
# Encoding the nodes

The nodes with points are encoded in windows of at most four million points, a window being at least
one node.  The nodes of a window are encoded in parallel and their results are taken in order.  The
points of a node are sorted by GPS time, and every `stride`-th of them and the last one are samples
for the temporal index.

Times are compared by `partial_cmp`, and times that cannot be compared count as equal.  This is an
order of the points as long as it is transitive on them; a time that is not a number next to two
different times makes it none.  The standard library sorts by an order: where the comparison is
none, `sort_unstable_by` may leave the points in any arrangement, or panic.  What follows says what
the loops do with an arrangement that the sort returned; a sort that may panic is a `TimeSort`.
-/

namespace CopcConverter

/-! ## Windows -/

/-- The number of points that a window may hold. -/
def writerWindowPoints : ℕ := 4000000

/-- The nodes that still fit a window with `winPoints` points, and the nodes after it. -/
def takeWindow (winPoints : ℕ) :
    List (VoxelKey × ℕ) → List (VoxelKey × ℕ) × List (VoxelKey × ℕ)
  | [] => ([], [])
  | e :: es =>
    if winPoints + e.2 > writerWindowPoints then ([], e :: es)
    else (e :: (takeWindow (winPoints + e.2) es).1, (takeWindow (winPoints + e.2) es).2)

lemma takeWindow_append (winPoints : ℕ) (es : List (VoxelKey × ℕ)) :
    (takeWindow winPoints es).1 ++ (takeWindow winPoints es).2 = es := by
  induction es generalizing winPoints with
  | nil => rfl
  | cons e es ih =>
    rw [takeWindow]
    split_ifs with h
    · rfl
    · rw [List.cons_append, ih]

lemma length_takeWindow_le (winPoints : ℕ) (es : List (VoxelKey × ℕ)) :
    (takeWindow winPoints es).2.length ≤ es.length := by
  have h := congrArg List.length (takeWindow_append winPoints es)
  rw [List.length_append] at h
  omega

/-- Cut the nodes into windows; the first node of a window fits whatever its size. -/
def windows : List (VoxelKey × ℕ) → List (List (VoxelKey × ℕ))
  | [] => []
  | e :: es => (e :: (takeWindow e.2 es).1) :: windows (takeWindow e.2 es).2
termination_by es => es.length
decreasing_by
  rw [List.length_cons]
  exact Nat.lt_succ_of_le (length_takeWindow_le e.2 es)

/-- The windows together are the nodes, in order. -/
theorem flatten_windows (es : List (VoxelKey × ℕ)) : (windows es).flatten = es := by
  induction es using windows.induct with
  | case1 => rw [windows, List.flatten_nil]
  | case2 e es ih =>
    rw [windows, List.flatten_cons, ih, List.cons_append, takeWindow_append]

/-- The GPS time of a point. -/
def timeOf (p : RawPoint) : F64 := ⟨p.gpsTime⟩

/-- A point that does not come later than another one; NaN is as early and as late as anything. -/
def notLater (p q : RawPoint) : Bool := !(timeOf q).lt (timeOf p)

/-- The comparison orders some points: it is transitive on them. -/
def TotalOn (pts : List RawPoint) : Prop :=
  ∀ p ∈ pts, ∀ q ∈ pts, ∀ r ∈ pts,
    notLater p q = true → notLater q r = true → notLater p r = true

instance (pts : List RawPoint) : Decidable (TotalOn pts) :=
  inferInstanceAs (Decidable (∀ p ∈ pts, ∀ q ∈ pts, ∀ r ∈ pts,
    notLater p q = true → notLater q r = true → notLater p r = true))

/-- An arrangement of points that sorting them may return. -/
structure SortOf (pts sorted : List RawPoint) : Prop where
  perm : sorted.Perm pts
  ordered : TotalOn pts → sorted.Pairwise fun p q => notLater p q = true

/-- The documented behaviour of `sort_unstable_by` with this comparison: `none` is a panic, which
can only happen where the comparison is no order. -/
structure TimeSort where
  sort : List RawPoint → Option (List RawPoint)
  sortOf : ∀ pts sorted, sort pts = some sorted → SortOf pts sorted
  total : ∀ pts, TotalOn pts → ∃ sorted, sort pts = some sorted

/-- The points of a node sorted by GPS time, by a sort that returns; points of the same time come in
any order. -/
def sortedByTime (o : IterOrder) (pts : List RawPoint) : List RawPoint :=
  (o.list pts).mergeSort notLater

/-- Numbers are ordered. -/
lemma totalOn_of_numbers {pts : List RawPoint} (h : ∀ p ∈ pts, (timeOf p).isNaN = false) :
    TotalOn pts := by
  have hkey : ∀ p ∈ pts, ∀ q ∈ pts, notLater p q = true ↔ (timeOf p).key ≤ (timeOf q).key := by
    intro p hp q hq
    have hlt := F64.lt_iff (h q hq) (h p hp)
    rw [notLater, Bool.not_eq_true', Bool.eq_false_iff, ne_eq, hlt, not_lt]
  intro p hp q hq r hr hpq hqr
  rw [hkey p hp r hr]
  exact ((hkey p hp q hq).mp hpq).trans ((hkey q hq r hr).mp hqr)

/-- Of two points one does not come later. -/
lemma notLater_total (p q : RawPoint) : (notLater p q || notLater q p) = true := by
  simp only [notLater, F64.lt]
  cases (timeOf p).isNaN <;> cases (timeOf q).isNaN <;>
    simp only [Bool.not_true, Bool.not_false, Bool.true_and, Bool.false_and, Bool.and_false,
      Bool.or_true]
  rw [Bool.or_eq_true, Bool.not_eq_true', Bool.not_eq_true', decide_eq_false_iff_not,
    decide_eq_false_iff_not]
  omega

/-- Sorting by time is one way of sorting. -/
lemma sortOf_sortedByTime (o : IterOrder) (pts : List RawPoint) :
    SortOf pts (sortedByTime o pts) := by
  refine ⟨(List.mergeSort_perm _ _).trans (o.list_perm pts), fun htotal => ?_⟩
  apply Lists.pairwise_mergeSort_of_mem
  · intro p hp q hq r hr
    exact htotal p (IterOrder.mem_list.mp hp) q (IterOrder.mem_list.mp hq) r
      (IterOrder.mem_list.mp hr)
  · exact fun p _ q _ => notLater_total p q

/-- A sort that always returns. -/
def TimeSort.returning (o : IterOrder) : TimeSort where
  sort pts := some (sortedByTime o pts)
  sortOf pts sorted h := by
    rw [← Option.some.inj h]
    exact sortOf_sortedByTime o pts
  total _ _ := ⟨_, rfl⟩

/-- The times of every `stride`-th point and of the last one. -/
def samplesOf (stride : ℕ) (pts : List RawPoint) : List F64 :=
  (pts.zipIdx.filter fun t => t.2 % stride = 0 ∨ t.2 = pts.length - 1).map fun t => timeOf t.1

lemma length_samplesOf_le (stride : ℕ) (pts : List RawPoint) :
    (samplesOf stride pts).length ≤ pts.length := by
  rw [samplesOf, List.length_map]
  exact (List.length_filter_le _ _).trans_eq List.length_zipIdx

/-- What comes out of encoding a node: its points in the order in which they are written, and its
samples. -/
structure NodeResult where
  points : List RawPoint
  samples : List F64

/-- Encode the points of a node. -/
def encodeNode (o : IterOrder) (stride : ℕ) (pts : List RawPoint) : NodeResult where
  points := sortedByTime o pts
  samples := samplesOf stride (sortedByTime o pts)

/-! ## All nodes -/

/-- Encode all nodes, window after window: the keys with their results. -/
def encodeNodes (o : IterOrder) (stride : ℕ) (store : Store) (nodeKeys : List (VoxelKey × ℕ)) :
    List (VoxelKey × NodeResult) :=
  ((windows (dataKeys nodeKeys)).mapIdx fun w window =>
    window.mapIdx fun i e => (e.1, encodeNode ((o.sub w).sub i) stride (store e.1))).flatten

/-- What holds of every node however its points are sorted holds of all results; and there is one
result for every node, in order. -/
lemma encodeNodes_spec (o : IterOrder) (stride : ℕ) (store : Store)
    (nodeKeys : List (VoxelKey × ℕ)) :
    (encodeNodes o stride store nodeKeys).map Prod.fst = (dataKeys nodeKeys).map Prod.fst ∧
      ∀ r ∈ encodeNodes o stride store nodeKeys,
        ∃ o', r.2 = encodeNode o' stride (store r.1) := by
  constructor
  · have hwindows : ∀ (ws : List (List (VoxelKey × ℕ))) (f : ℕ → ℕ → IterOrder),
        ((ws.mapIdx fun w window => window.mapIdx fun i e =>
          (e.1, encodeNode (f w i) stride (store e.1))).flatten).map Prod.fst =
            ws.flatten.map Prod.fst := by
      intro ws
      induction ws with
      | nil => exact fun _ => rfl
      | cons window ws ih =>
        intro f
        have hwindow : (window.mapIdx fun i e =>
            (e.1, encodeNode (f 0 i) stride (store e.1))).map Prod.fst = window.map Prod.fst :=
          List.ext_getElem (by simp) (by simp)
        rw [List.mapIdx_cons, List.flatten_cons, List.map_append, hwindow,
          ih fun w i => f (w + 1) i, List.flatten_cons, List.map_append]
    rw [encodeNodes, hwindows, flatten_windows]
  · intro r hr
    obtain ⟨l, hl, hrl⟩ := List.mem_flatten.mp hr
    obtain ⟨w, hw, rfl⟩ := List.mem_mapIdx.mp hl
    obtain ⟨i, hi, rfl⟩ := List.mem_mapIdx.mp hrl
    exact ⟨_, rfl⟩

/-! ## Samples -/

section Samples

variable {o : IterOrder} {pts : List RawPoint}

/-- Sorting puts times that are not NaN in order. -/
lemma sortedByTime_pairwise (hnan : ∀ p ∈ pts, (timeOf p).isNaN = false) :
    (sortedByTime o pts).Pairwise fun p q => (timeOf p).key ≤ (timeOf q).key := by
  have hsame : ∀ p ∈ o.list pts, ∀ q ∈ o.list pts,
      notLater p q = decide ((timeOf p).key ≤ (timeOf q).key) := by
    intro p hp q hq
    have hlt := F64.lt_iff (hnan q (IterOrder.mem_list.mp hq)) (hnan p (IterOrder.mem_list.mp hp))
    rw [notLater, Bool.eq_iff_iff, Bool.not_eq_true', Bool.eq_false_iff, ne_eq, hlt,
      decide_eq_true_eq, not_lt]
  have hsort : (o.list pts).mergeSort notLater =
      (o.list pts).mergeSort fun p q => decide ((timeOf p).key ≤ (timeOf q).key) := by
    have h := List.map_mergeSort (f := fun p => p) hsame
    rwa [List.map_id', List.map_id'] at h
  rw [sortedByTime, hsort]
  exact Lists.pairwise_mergeSort_by (fun p q => (timeOf p).key ≤ (timeOf q).key)
    (fun _ _ _ => le_trans) (fun _ _ => le_total _ _) (o.list pts)

lemma mem_sortedByTime {p : RawPoint} : p ∈ sortedByTime o pts ↔ p ∈ pts := by
  rw [sortedByTime, List.mem_mergeSort, IterOrder.mem_list]

/-- The samples are some of the times, in order. -/
lemma samplesOf_sublist (stride : ℕ) (pts : List RawPoint) :
    (samplesOf stride pts).Sublist (pts.map timeOf) := by
  have hzip : pts.map timeOf = pts.zipIdx.map fun t => timeOf t.1 := by
    conv_lhs => rw [← List.zipIdx_map_fst 0 pts]
    rw [List.map_map]
    rfl
  rw [hzip]
  exact List.filter_sublist.map _

/-- The time of the first point is the first sample. -/
lemma head?_samplesOf (stride : ℕ) (p : RawPoint) (pts : List RawPoint) :
    (samplesOf stride (p :: pts)).head? = some (timeOf p) := by
  rw [samplesOf, List.zipIdx_cons, List.filter_cons_of_pos (by simp), List.map_cons,
    List.head?_cons]

/-- The time of the last point is the last sample. -/
lemma getLast?_samplesOf (stride : ℕ) (pts : List RawPoint) (p : RawPoint) :
    (samplesOf stride (pts ++ [p])).getLast? = some (timeOf p) := by
  rw [samplesOf, List.zipIdx_append, List.filter_append, List.map_append, List.zipIdx_singleton,
    List.filter_cons_of_pos (by simp), List.filter_nil, List.map_singleton, List.getLast?_concat]

end Samples

end CopcConverter
