import Mathlib

/-!
# Unspecified iteration orders

Code that iterates over a hash map sees its entries in an unspecified order, which may differ from
one iteration to the next, and a thread pool runs tasks in whatever order it likes.  An `IterOrder`
fixes one order for every place of a run at which a collection is iterated: a place is a path of
numbers, and a part of a run gets the orders of the paths that begin with its number.  Results that
hold for every `IterOrder` hold for every such run.

Tasks that run one after the other in a chosen order over a shared state are the second subject.
The first error ends the run, and results are collected in the order of the elements.  There is one
rule for such runs: an invariant of the finished tasks, the state and the results that every task
keeps.
-/

/-- A choice of iteration order at every site of a run, a site being a path of numbers. -/
structure IterOrder where
  order : List ℕ → {α : Type} → List α → List α
  perm : ∀ site {α : Type} (l : List α), (order site l).Perm l

namespace IterOrder

/-- The orders for the part of the run numbered `i`. -/
def sub (o : IterOrder) (i : ℕ) : IterOrder where
  order site := o.order (i :: site)
  perm site := o.perm (i :: site)

/-- The elements of a collection in the order in which it is iterated here. -/
def list (o : IterOrder) {α : Type} (l : List α) : List α := o.order [] l

lemma list_perm (o : IterOrder) {α : Type} (l : List α) : (o.list l).Perm l := o.perm [] l

@[simp] lemma mem_list {o : IterOrder} {α : Type} {l : List α} {x : α} : x ∈ o.list l ↔ x ∈ l :=
  (o.list_perm l).mem_iff

/-- Every collection in the order in which it is listed. -/
def listed : IterOrder where
  order _ {_} l := l
  perm _ {_} _ := List.Perm.refl _

end IterOrder

/-! ## Tasks over a shared state -/

namespace IterOrder

variable {α σ β ε γ : Type}

/-- Run one task after the other, recording the result of each under its number. -/
def runTask (f : ℕ → α → σ → Except ε (σ × β)) (acc : σ × (ℕ → Option β)) (t : α × ℕ) :
    Except ε (σ × (ℕ → Option β)) :=
  match f t.2 t.1 acc.1 with
  | .error e => .error e
  | .ok r => .ok (r.1, Function.update acc.2 t.2 (some r.2))

/-- Run a task for every element, in the order chosen here, over a shared state; the results are
collected in the order of the elements.  The first error ends the run. -/
def runTasks (o : IterOrder) (f : ℕ → α → σ → Except ε (σ × β)) (tasks : List α) (s : σ) :
    Except ε (σ × List β) :=
  match (o.list tasks.zipIdx).foldlM (runTask f) (s, fun _ => none) with
  | .error e => .error e
  | .ok r => .ok (r.1, (List.range tasks.length).filterMap r.2)

/-- What the tasks of a run record, each seeing the state it starts from. -/
def taskTrace (f : ℕ → α → σ → Except ε (σ × β)) (g : ℕ → α → σ → List γ) :
    List (α × ℕ) → σ → List γ
  | [], _ => []
  | t :: rest, s => g t.2 t.1 s ++
    match f t.2 t.1 s with
    | .error _ => []
    | .ok r => taskTrace f g rest r.1

/-- What the tasks of `runTasks` record. -/
def tasksTrace (o : IterOrder) (f : ℕ → α → σ → Except ε (σ × β)) (g : ℕ → α → σ → List γ)
    (tasks : List α) (s : σ) : List γ :=
  taskTrace f g (o.list tasks.zipIdx) s

/-- Only what the tasks do matters to a run. -/
lemma runTasks_congr {o : IterOrder} {f f' : ℕ → α → σ → Except ε (σ × β)} {tasks : List α}
    (h : ∀ t ∈ tasks.zipIdx, ∀ s, f t.2 t.1 s = f' t.2 t.1 s) :
    o.runTasks f tasks = o.runTasks f' tasks := by
  have hfold : ∀ todo : List (α × ℕ), (∀ t ∈ todo, t ∈ tasks.zipIdx) →
      ∀ acc, todo.foldlM (runTask f) acc = todo.foldlM (runTask f') acc := by
    intro todo htodo
    induction todo with
    | nil => exact fun _ => rfl
    | cons t todo ih =>
      intro acc
      have hsame : runTask f acc t = runTask f' acc t := by
        rw [runTask, runTask, h t (htodo t List.mem_cons_self)]
      rw [List.foldlM_cons, List.foldlM_cons, hsame]
      exact congrArg _ (funext (ih fun u hu => htodo u (List.mem_cons_of_mem _ hu)))
  funext s
  rw [runTasks, runTasks, hfold _ fun t ht => mem_list.mp ht]

/-- What every task preserves holds after the run. -/
lemma foldlM_runTask {f : ℕ → α → σ → Except ε (σ × β)} {g : ℕ → α → σ → List γ}
    (Inv : List (α × ℕ) → σ → (ℕ → Option β) → List γ → Prop) {todo done : List (α × ℕ)}
    (hnodup : (todo ++ done).Nodup)
    (hstep : ∀ done t s s' r res tr, t ∈ todo → t ∉ done → f t.2 t.1 s = .ok (s', r) →
      Inv done s res tr →
        Inv (t :: done) s' (Function.update res t.2 (some r)) (tr ++ g t.2 t.1 s))
    {acc acc' : σ × (ℕ → Option β)} {tr : List γ} (h : Inv done acc.1 acc.2 tr)
    (hok : todo.foldlM (runTask f) acc = .ok acc') :
    ∃ all, all.Perm (todo ++ done) ∧ Inv all acc'.1 acc'.2 (tr ++ taskTrace f g todo acc.1) := by
  induction todo generalizing done acc tr with
  | nil =>
    obtain rfl := Except.ok.inj hok
    rw [taskTrace, List.append_nil]
    exact ⟨done, List.Perm.refl _, h⟩
  | cons t todo ih =>
    rw [List.foldlM_cons] at hok
    rw [taskTrace]
    cases hf : f t.2 t.1 acc.1 with
    | error e =>
      simp only [runTask, hf] at hok
      cases hok
    | ok r =>
      simp only [runTask, hf] at hok
      rw [List.cons_append, List.nodup_cons] at hnodup
      have hnext := hstep done t acc.1 r.1 r.2 acc.2 tr List.mem_cons_self
        (fun hd => hnodup.1 (List.mem_append_right _ hd)) hf h
      have hnodup' : (todo ++ t :: done).Nodup :=
        List.nodup_middle.mpr (List.nodup_cons.mpr hnodup)
      obtain ⟨all, hperm, hall⟩ := ih hnodup'
        (fun done u s s' r res tr hu => hstep done u s s' r res tr (List.mem_cons_of_mem _ hu))
        hnext hok
      rw [List.append_assoc] at hall
      exact ⟨all, hperm.trans List.perm_middle, hall⟩

/-- The rule for a run of tasks: an invariant of the finished tasks, the state, the results and
what has been recorded. -/
theorem runTasks_ok {o : IterOrder} {f : ℕ → α → σ → Except ε (σ × β)} {g : ℕ → α → σ → List γ}
    {tasks : List α} {s s' : σ} {results : List β}
    (Inv : List (α × ℕ) → σ → (ℕ → Option β) → List γ → Prop)
    (hok : o.runTasks f tasks s = .ok (s', results)) (hinit : Inv [] s (fun _ => none) [])
    (hstep : ∀ done t s s' r res tr, t ∈ tasks.zipIdx → t ∉ done → f t.2 t.1 s = .ok (s', r) →
      Inv done s res tr →
        Inv (t :: done) s' (Function.update res t.2 (some r)) (tr ++ g t.2 t.1 s)) :
    ∃ all res, all.Perm tasks.zipIdx ∧ Inv all s' res (o.tasksTrace f g tasks s) ∧
      results = (List.range tasks.length).filterMap res := by
  unfold runTasks at hok
  have hnodup : (o.list tasks.zipIdx ++ []).Nodup := by
    rw [List.append_nil, (o.list_perm _).nodup_iff]
    exact List.Nodup.of_map Prod.snd (by rw [List.zipIdx_map_snd]; exact List.nodup_range')
  cases hrun : (o.list tasks.zipIdx).foldlM (runTask f) (s, fun _ => none) with
  | error e =>
    rw [hrun] at hok
    cases hok
  | ok acc =>
    rw [hrun] at hok
    cases hok
    obtain ⟨all, hperm, hall⟩ := foldlM_runTask Inv hnodup
      (fun done t s s' r res tr ht => hstep done t s s' r res tr (mem_list.mp ht)) hinit hrun
    rw [List.append_nil] at hperm
    exact ⟨all, acc.2, hperm.trans (o.list_perm _), hall, rfl⟩

/-- Tasks of which every one succeeds and adds its weight to the total, each within the total of
all, succeed together in any order. -/
lemma runTasks_succeeds {o : IterOrder} {f : ℕ → α → σ → Except ε (σ × β)} {tasks : List α} {s : σ}
    (Inv : ℕ → σ → Prop) (weight : ℕ → ℕ) {n : ℕ}
    (hstep : ∀ i t m s, tasks[i]? = some t →
      m + weight i ≤ n + ((List.range tasks.length).map weight).sum → Inv m s →
        ∃ s' r, f i t s = .ok (s', r) ∧ Inv (m + weight i) s') (hinit : Inv n s) :
    ∃ s' results, o.runTasks f tasks s = .ok (s', results) ∧
      Inv (n + ((List.range tasks.length).map weight).sum) s' := by
  set total := n + ((List.range tasks.length).map weight).sum
  have hfold : ∀ (todo : List (α × ℕ)) (m : ℕ) (acc : σ × (ℕ → Option β)),
      (∀ t ∈ todo, t ∈ tasks.zipIdx) → m + (todo.map fun t => weight t.2).sum = total →
      Inv m acc.1 → ∃ acc', todo.foldlM (runTask f) acc = .ok acc' ∧ Inv total acc'.1 := by
    intro todo
    induction todo with
    | nil =>
      intro m acc _ hsum hinv
      exact ⟨acc, rfl, hsum ▸ hinv⟩
    | cons t todo ih =>
      intro m acc hmem hsum hinv
      rw [List.map_cons, List.sum_cons] at hsum
      obtain ⟨s', r, hf, hinv'⟩ := hstep t.2 t.1 m acc.1
        (List.mem_zipIdx_iff_getElem?.mp (hmem t List.mem_cons_self)) (by omega) hinv
      obtain ⟨acc', hrun, hend⟩ := ih (m + weight t.2) (s', Function.update acc.2 t.2 (some r))
        (fun u hu => hmem u (List.mem_cons_of_mem _ hu)) (by omega) hinv'
      refine ⟨acc', ?_, hend⟩
      rw [List.foldlM_cons]
      have htask : runTask f acc t = .ok (s', Function.update acc.2 t.2 (some r)) := by
        rw [runTask, hf]
      rw [htask]
      exact hrun
  have hsum : n + ((o.list tasks.zipIdx).map fun t => weight t.2).sum = total := by
    rw [((o.list_perm tasks.zipIdx).map _).sum_eq]
    change _ + (tasks.zipIdx.map (weight ∘ Prod.snd)).sum = _
    rw [← List.map_map, List.zipIdx_map_snd, ← List.range_eq_range']
  obtain ⟨acc, hrun, hend⟩ := hfold (o.list tasks.zipIdx) n (s, fun _ => none)
    (fun t ht => mem_list.mp ht) hsum hinit
  exact ⟨acc.1, _, by rw [runTasks, hrun], hend⟩

/-- Results that are all there line up with their tasks. -/
lemma mem_zip_results {tasks : List α} {res : ℕ → Option β}
    (h : ∀ i, i < tasks.length → (res i).isSome) {t : α} {r : β} :
    (t, r) ∈ tasks.zip ((List.range tasks.length).filterMap res) ↔
      ∃ i, tasks[i]? = some t ∧ res i = some r := by
  have hlen : ∀ n, n ≤ tasks.length → ((List.range n).filterMap res).length = n ∧
      ∀ i, i < n → ((List.range n).filterMap res)[i]? = res i := by
    intro n
    induction n with
    | zero => exact fun _ => ⟨rfl, fun i hi => absurd hi (Nat.not_lt_zero i)⟩
    | succ n ih =>
      intro hn
      obtain ⟨ih1, ih2⟩ := ih (by omega)
      obtain ⟨r, hr⟩ := Option.isSome_iff_exists.mp (h n (by omega))
      have hsplit : (List.range (n + 1)).filterMap res = (List.range n).filterMap res ++ [r] := by
        rw [List.range_succ, List.filterMap_append]
        simp [hr]
      rw [hsplit]
      refine ⟨by rw [List.length_append, ih1]; rfl, fun i hi => ?_⟩
      rcases Nat.lt_succ_iff_lt_or_eq.mp hi with hi | rfl
      · rw [List.getElem?_append_left (by rw [ih1]; exact hi), ih2 i hi]
      · rw [List.getElem?_append_right ih1.le, ih1, Nat.sub_self, hr]
        rfl
  obtain ⟨hlen, hget⟩ := hlen tasks.length le_rfl
  rw [List.mem_iff_getElem?]
  constructor
  · rintro ⟨i, hi⟩
    obtain ⟨h1, h2⟩ := List.getElem?_zip_eq_some.mp hi
    refine ⟨i, h1, ?_⟩
    rwa [← hget i (by rw [List.getElem?_eq_some_iff] at h1; exact h1.1)]
  · rintro ⟨i, h1, h2⟩
    refine ⟨i, List.getElem?_zip_eq_some.mpr ⟨h1, ?_⟩⟩
    rwa [hget i (by rw [List.getElem?_eq_some_iff] at h1; exact h1.1)]

end IterOrder
