import Mathlib

/-!
# Workers that take turns

Some workers run side by side, each a program of steps of its own.  A step acts on a state that all
workers share and on a state that its worker keeps to itself.  A schedule says which worker takes
the next step, and a run is a schedule that can be carried out.

Whatever the schedule, a worker at the end of its program has in its own state what the program
alone leaves there, and the shared state has seen the steps of all programs in some order.  When the
steps commute on the shared state, as increments of counters do, the order plays no role.  A crew
that is ready, in the sense that every step that is left can be taken, never gets stuck: every run
can be continued until all programs are finished.
-/

namespace Workers

variable {α S P : Type}

/-- The steps that a worker still has to take, and the state it keeps to itself. -/
structure Worker (α P : Type) where
  todo : List α
  own : P

/-- Some workers and the state they share. -/
structure Crew (α S P : Type) where
  shared : S
  workers : List (Worker α P)

section Turns

variable (onShared : α → S → Option S) (onOwn : α → P → Option P)

/-- A worker takes its next step, if it has one and the step does not fail. -/
def Worker.next (s : S) (w : Worker α P) : Option (S × Worker α P) :=
  match w.todo with
  | [] => none
  | x :: todo => (onShared x s).bind fun s' => (onOwn x w.own).map fun own => (s', ⟨todo, own⟩)

/-- One of the workers takes its next step. -/
def Crew.turn (c : Crew α S P) (i : ℕ) : Option (Crew α S P) :=
  c.workers[i]?.bind fun w =>
    (w.next onShared onOwn c.shared).map fun r => ⟨r.1, c.workers.set i r.2⟩

/-- The workers take their steps as the schedule says. -/
def Crew.run (c : Crew α S P) (schedule : List ℕ) : Option (Crew α S P) :=
  schedule.foldlM (Crew.turn onShared onOwn) c

end Turns

/-- No worker has a step left. -/
def Crew.Finished (c : Crew α S P) : Prop := ∀ w ∈ c.workers, w.todo = []

instance (c : Crew α S P) : Decidable c.Finished :=
  decidable_of_iff (c.workers.all fun w => w.todo.isEmpty) (by simp [Crew.Finished])

/-- The number of steps left. -/
def Crew.remaining (c : Crew α S P) : ℕ := (c.workers.flatMap Worker.todo).length

variable {onShared : α → S → Option S} {onOwn : α → P → Option P} {c c' : Crew α S P}

/-- What a turn does. -/
lemma turn_cases {i : ℕ} (h : c.turn onShared onOwn i = some c') :
    ∃ pre x todo own post own', c.workers = pre ++ ⟨x :: todo, own⟩ :: post ∧
      onShared x c.shared = some c'.shared ∧ onOwn x own = some own' ∧
      c'.workers = pre ++ ⟨todo, own'⟩ :: post := by
  obtain ⟨⟨todo, own⟩, hw, hnext⟩ := Option.bind_eq_some_iff.mp h
  obtain ⟨⟨s', w'⟩, hstep, rfl⟩ := Option.map_eq_some_iff.mp hnext
  obtain ⟨hi, hget⟩ := List.getElem?_eq_some_iff.mp hw
  cases todo with
  | nil => cases hstep
  | cons x todo =>
    obtain ⟨s₁, hshared, hmap⟩ := Option.bind_eq_some_iff.mp hstep
    obtain ⟨own', hown, heq⟩ := Option.map_eq_some_iff.mp hmap
    obtain ⟨rfl, rfl⟩ := Prod.mk.inj heq
    refine ⟨c.workers.take i, x, todo, own, c.workers.drop (i + 1), own', ?_, hshared, hown, ?_⟩
    · rw [← hget, List.getElem_cons_drop, List.take_append_drop]
    · exact List.set_eq_take_cons_drop _ hi

/-- A worker with a step that does not fail can take it. -/
lemma turn_eq {pre post : List (Worker α P)} {x : α} {todo : List α} {own own' : P} {s' : S}
    (hw : c.workers = pre ++ ⟨x :: todo, own⟩ :: post) (hshared : onShared x c.shared = some s')
    (hown : onOwn x own = some own') :
    c.turn onShared onOwn pre.length = some ⟨s', pre ++ ⟨todo, own'⟩ :: post⟩ := by
  have hget : c.workers[pre.length]? = some ⟨x :: todo, own⟩ := by
    rw [hw, List.getElem?_append_right le_rfl, Nat.sub_self, List.getElem?_cons_zero]
  have hnext : (⟨x :: todo, own⟩ : Worker α P).next onShared onOwn c.shared =
      some (s', ⟨todo, own'⟩) := by
    simp only [Worker.next, hshared, hown, Option.bind_some, Option.map_some]
  rw [Crew.turn, hget, Option.bind_some, hnext, Option.map_some, hw,
    List.set_append_right _ _ le_rfl, Nat.sub_self, List.set_cons_zero]

lemma run_cons {i : ℕ} {schedule : List ℕ} (h : c.run onShared onOwn (i :: schedule) = some c') :
    ∃ mid, c.turn onShared onOwn i = some mid ∧ mid.run onShared onOwn schedule = some c' := by
  rw [Crew.run, List.foldlM_cons] at h
  exact Option.bind_eq_some_iff.mp h

/-! ## Finished runs -/

/-- A worker that has run its program. -/
structure Completed (onOwn : α → P → Option P) (w w' : Worker α P) : Prop where
  todo : w'.todo = []
  own : w.todo.foldlM (fun p x => onOwn x p) w.own = some w'.own

/-- Replacing one element of the first list. -/
lemma forall₂_replace {β γ : Type} {R : β → γ → Prop} {pre post : List β} {a b : β} {l : List γ}
    (hab : ∀ y, R a y → R b y) (h : List.Forall₂ R (pre ++ a :: post) l) :
    List.Forall₂ R (pre ++ b :: post) l := by
  induction pre generalizing l with
  | nil =>
    obtain ⟨y, l, hy, hl, rfl⟩ := List.forall₂_cons_left_iff.mp h
    exact List.Forall₂.cons (hab y hy) hl
  | cons d pre ih =>
    obtain ⟨y, l, hy, hl, rfl⟩ := List.forall₂_cons_left_iff.mp h
    exact List.Forall₂.cons hy (ih hl)

/-- A finished run has taken every step of every program: the shared state has seen all of them in
some order, and every worker has run its program on its own state. -/
theorem run_finished {schedule : List ℕ} (h : c.run onShared onOwn schedule = some c')
    (hdone : c'.Finished) :
    (∃ trace : List α, trace.Perm (c.workers.flatMap Worker.todo) ∧
      trace.foldlM (fun s x => onShared x s) c.shared = some c'.shared) ∧
    List.Forall₂ (Completed onOwn) c.workers c'.workers := by
  induction schedule generalizing c with
  | nil =>
    obtain rfl : c = c' := Option.some.inj h
    refine ⟨⟨[], ?_, rfl⟩, List.forall₂_same.mpr fun w hw => ⟨hdone w hw, ?_⟩⟩
    · rw [List.flatMap_eq_nil_iff.mpr hdone]
    · rw [hdone w hw]
      rfl
  | cons i schedule ih =>
    obtain ⟨mid, hturn, hrun⟩ := run_cons h
    obtain ⟨pre, x, todo, own, post, own', hw, hshared, hown, hmid⟩ := turn_cases hturn
    obtain ⟨⟨trace, hperm, htrace⟩, hall⟩ := ih hrun
    refine ⟨⟨x :: trace, ?_, ?_⟩, ?_⟩
    · rw [hmid, List.flatMap_append, List.flatMap_cons] at hperm
      rw [hw, List.flatMap_append, List.flatMap_cons]
      exact (hperm.cons x).trans List.perm_middle.symm
    · rw [List.foldlM_cons, hshared]
      exact htrace
    · rw [hmid] at hall
      rw [hw]
      refine forall₂_replace (fun w' hw' => ⟨hw'.todo, ?_⟩) hall
      rw [List.foldlM_cons, hown]
      exact hw'.own

/-! ## Progress -/

/-- No step that is left fails: not on the shared state, as long as it is one of the good ones, and
not on the own state of its worker. -/
structure Ready (onShared : α → S → Option S) (onOwn : α → P → Option P) (Good : S → Prop)
    (c : Crew α S P) : Prop where
  good : Good c.shared
  shared : ∀ w ∈ c.workers, ∀ x ∈ w.todo, ∀ s, Good s → ∃ s', onShared x s = some s' ∧ Good s'
  own : ∀ w ∈ c.workers, ∃ p, w.todo.foldlM (fun p x => onOwn x p) w.own = some p

variable {Good : S → Prop}

/-- A turn leaves no step that fails. -/
lemma Ready.turn (hr : Ready onShared onOwn Good c) {i : ℕ}
    (h : c.turn onShared onOwn i = some c') : Ready onShared onOwn Good c' := by
  obtain ⟨pre, x, todo, own, post, own', hw, hshared, hown, hw'⟩ := turn_cases h
  have hmem : ⟨x :: todo, own⟩ ∈ c.workers := by
    rw [hw]
    exact List.mem_append_right _ List.mem_cons_self
  have hkeep : ∀ w ∈ c'.workers, w = ⟨todo, own'⟩ ∨ w ∈ c.workers := by
    intro w hmem
    rw [hw', List.mem_append, List.mem_cons] at hmem
    rw [hw, List.mem_append, List.mem_cons]
    tauto
  refine ⟨?_, fun w hmem' => ?_, fun w hmem' => ?_⟩
  · obtain ⟨s', hs', hgood⟩ := hr.shared _ hmem x List.mem_cons_self c.shared hr.good
    obtain rfl := Option.some.inj (hshared.symm.trans hs')
    exact hgood
  · rcases hkeep w hmem' with rfl | hold
    · exact fun y hy => hr.shared _ hmem y (List.mem_cons_of_mem _ hy)
    · exact hr.shared w hold
  · rcases hkeep w hmem' with rfl | hold
    · obtain ⟨p, hp⟩ := hr.own _ hmem
      rw [List.foldlM_cons, hown] at hp
      exact ⟨p, hp⟩
    · exact hr.own w hold

/-- A run leaves no step that fails. -/
lemma Ready.run (hr : Ready onShared onOwn Good c) {schedule : List ℕ}
    (h : c.run onShared onOwn schedule = some c') : Ready onShared onOwn Good c' := by
  induction schedule generalizing c with
  | nil =>
    obtain rfl : c = c' := Option.some.inj h
    exact hr
  | cons i schedule ih =>
    obtain ⟨mid, hturn, hrun⟩ := run_cons h
    exact ih (hr.turn hturn) hrun

/-- As long as steps are left, one of the workers can take its next step. -/
lemma Ready.exists_turn (hr : Ready onShared onOwn Good c) (h : ¬ c.Finished) :
    ∃ i c', c.turn onShared onOwn i = some c' := by
  obtain ⟨⟨todo, own⟩, hw, hne⟩ := not_forall₂.mp h
  obtain ⟨x, todo, rfl⟩ := List.exists_cons_of_ne_nil hne
  obtain ⟨pre, post, hsplit⟩ := List.append_of_mem hw
  obtain ⟨s', hs', -⟩ := hr.shared _ hw x List.mem_cons_self c.shared hr.good
  obtain ⟨p, hp⟩ := hr.own _ hw
  rw [List.foldlM_cons] at hp
  obtain ⟨own', hown, -⟩ := Option.bind_eq_some_iff.mp hp
  exact ⟨_, _, turn_eq hsplit hs' hown⟩

/-- A turn takes one step. -/
lemma remaining_turn {i : ℕ} (h : c.turn onShared onOwn i = some c') :
    c'.remaining + 1 = c.remaining := by
  obtain ⟨pre, x, todo, own, post, own', hw, -, -, hw'⟩ := turn_cases h
  unfold Crew.remaining
  rw [hw, hw']
  simp only [List.flatMap_append, List.flatMap_cons, List.length_append, List.length_cons]
  omega

/-- Every run can be finished. -/
theorem Ready.exists_finish (hr : Ready onShared onOwn Good c) :
    ∃ schedule c', c.run onShared onOwn schedule = some c' ∧ c'.Finished := by
  induction hn : c.remaining generalizing c with
  | zero =>
    refine ⟨[], c, rfl, fun w hw => ?_⟩
    exact List.flatMap_eq_nil_iff.mp (List.eq_nil_of_length_eq_zero hn) w hw
  | succ n ih =>
    have hopen : ¬ c.Finished := fun hfin => by
      rw [Crew.remaining, List.flatMap_eq_nil_iff.mpr hfin] at hn
      cases hn
    obtain ⟨i, mid, hturn⟩ := hr.exists_turn hopen
    have hleft := remaining_turn hturn
    obtain ⟨schedule, c', hrun, hfin⟩ := ih (hr.turn hturn) (by omega)
    refine ⟨i :: schedule, c', ?_, hfin⟩
    rw [Crew.run, List.foldlM_cons, hturn]
    exact hrun

end Workers
