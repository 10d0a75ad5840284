import Mathlib

/-!
# Threads that call an object

Any number of threads call the operations of an object they share.  A call takes steps of its own
between its invocation and its response, on its own phase and on the state that is shared, and the
steps of all threads are interleaved in any way.  The history lists the invocations and the
responses, the newest first; what an observer may say about an object is a property of the histories
of its runs.

Two kinds of results are prepared here.  For safety there is induction over runs: what holds at the
start and is kept by every action holds after every run.  For progress there are two notions, that
the call of a thread can be brought to its end, with or without new calls by others, and a rule with
a measure: it is enough that in every state that is met some thread can come closer to the end of a
call.
-/

namespace Calls

variable {T C R S P A : Type}

/-! ## Histories -/

/-- What an observer sees of a thread. -/
inductive Event (T C R : Type) where
  | invoke (t : T) (call : C)
  | respond (t : T) (call : C) (result : R)

/-- Whose event it is. -/
def Event.thread : Event T C R → T
  | .invoke t _ => t
  | .respond t _ _ => t

/-- The call that a thread has not finished. -/
def pending [DecidableEq T] : List (Event T C R) → T → Option C
  | [], _ => none
  | .invoke t call :: history, u => if u = t then some call else pending history u
  | .respond t _ _ :: history, u => if u = t then none else pending history u

/-- Threads call when they have no call to finish, and finish what they called. -/
def Proper [DecidableEq T] : List (Event T C R) → Prop
  | [] => True
  | .invoke t _ :: history => pending history t = none ∧ Proper history
  | .respond t call _ :: history => pending history t = some call ∧ Proper history

/-- A call that is not finished was invoked. -/
lemma mem_of_pending [DecidableEq T] {history : List (Event T C R)} {t : T} {call : C}
    (h : pending history t = some call) : .invoke t call ∈ history := by
  induction history with
  | nil => cases h
  | cons e history ih =>
    cases e with
    | invoke u other =>
      rw [pending] at h
      split_ifs at h with htu
      · obtain rfl := Option.some.inj h
        exact htu ▸ List.mem_cons_self
      · exact List.mem_cons_of_mem _ (ih h)
    | respond u other r =>
      rw [pending] at h
      split_ifs at h
      exact List.mem_cons_of_mem _ (ih h)

/-! ## Objects -/

/-- How calls are carried out: the phase a call begins with, the steps on the phase and on the state
that is shared, and the result when the call is done.  What the steps leave open is decided from
outside. -/
structure Object (T C R S P A : Type) where
  start : T → C → P
  step : T → A → C → P → S → Option (P × S)
  finish : T → A → C → P → S → Option R

/-- The shared state, the calls that are being carried out, and the history. -/
structure System (T C R S P : Type) where
  shared : S
  threads : T → Option (C × P)
  history : List (Event T C R)

/-- The state before any call. -/
def System.start (shared : S) : System T C R S P := ⟨shared, fun _ => none, []⟩

/-- What a thread can do next. -/
inductive Action (T C A : Type) where
  | invoke (t : T) (call : C)
  | step (t : T) (choice : A)
  | respond (t : T) (choice : A)

section Runs

variable [DecidableEq T] (O : Object T C R S P A)

/-- One action of one thread. -/
def System.act (s : System T C R S P) : Action T C A → Option (System T C R S P)
  | .invoke t call =>
    if (s.threads t).isNone then
      some ⟨s.shared, Function.update s.threads t (some (call, O.start t call)),
        .invoke t call :: s.history⟩
    else none
  | .step t choice => (s.threads t).bind fun w =>
    (O.step t choice w.1 w.2 s.shared).map fun r =>
      ⟨r.2, Function.update s.threads t (some (w.1, r.1)), s.history⟩
  | .respond t choice => (s.threads t).bind fun w =>
    (O.finish t choice w.1 w.2 s.shared).map fun r =>
      ⟨s.shared, Function.update s.threads t none, .respond t w.1 r :: s.history⟩

/-- Some actions, one after the other. -/
def System.run (s : System T C R S P) (actions : List (Action T C A)) :
    Option (System T C R S P) :=
  actions.foldlM (System.act O) s

end Runs

/-- What an action does. -/
inductive Acts [DecidableEq T] (O : Object T C R S P A) (s : System T C R S P) :
    System T C R S P → Prop
  | invoke (t : T) (call : C) (h : s.threads t = none) :
      Acts O s ⟨s.shared, Function.update s.threads t (some (call, O.start t call)),
        .invoke t call :: s.history⟩
  | step (t : T) (choice : A) (call : C) (p p' : P) (shared : S)
      (h : s.threads t = some (call, p))
      (hstep : O.step t choice call p s.shared = some (p', shared)) :
      Acts O s ⟨shared, Function.update s.threads t (some (call, p')), s.history⟩
  | respond (t : T) (choice : A) (call : C) (p : P) (r : R) (h : s.threads t = some (call, p))
      (hfinish : O.finish t choice call p s.shared = some r) :
      Acts O s ⟨s.shared, Function.update s.threads t none, .respond t call r :: s.history⟩

section Lemmas

variable [DecidableEq T] {O : Object T C R S P A} {s s' : System T C R S P}

lemma acts_of_act {action : Action T C A} (h : s.act O action = some s') : Acts O s s' := by
  cases action with
  | invoke t call =>
    simp only [System.act] at h
    split_ifs at h with hnone
    obtain rfl := Option.some.inj h
    exact Acts.invoke t call (Option.isNone_iff_eq_none.mp hnone)
  | step t choice =>
    obtain ⟨⟨call, p⟩, hthread, hmap⟩ := Option.bind_eq_some_iff.mp h
    obtain ⟨⟨p', shared⟩, hstep, rfl⟩ := Option.map_eq_some_iff.mp hmap
    exact Acts.step t choice call p p' shared hthread hstep
  | respond t choice =>
    obtain ⟨⟨call, p⟩, hthread, hmap⟩ := Option.bind_eq_some_iff.mp h
    obtain ⟨r, hfinish, rfl⟩ := Option.map_eq_some_iff.mp hmap
    exact Acts.respond t choice call p r hthread hfinish

/-- A step that a call can take is an action. -/
lemma act_step {t : T} {a : A} {call : C} {p p' : P} {shared : S}
    (hthread : s.threads t = some (call, p))
    (hstep : O.step t a call p s.shared = some (p', shared)) :
    s.act O (.step t a) =
      some ⟨shared, Function.update s.threads t (some (call, p')), s.history⟩ := by
  rw [System.act, hthread, Option.bind_some, hstep, Option.map_some]

/-- A return that a call can make is an action. -/
lemma act_respond {t : T} {a : A} {call : C} {p : P} {r : R}
    (hthread : s.threads t = some (call, p)) (hfinish : O.finish t a call p s.shared = some r) :
    s.act O (.respond t a) =
      some ⟨s.shared, Function.update s.threads t none, .respond t call r :: s.history⟩ := by
  rw [System.act, hthread, Option.bind_some, hfinish, Option.map_some]

/-- A run goes on after an action. -/
lemma run_cons {action : Action T C A} {actions : List (Action T C A)} {mid : System T C R S P}
    (h : s.act O action = some mid) : s.run O (action :: actions) = mid.run O actions := by
  rw [System.run, List.foldlM_cons, h]
  rfl

/-- What holds at the start and is kept by every action holds after every run. -/
theorem run_induction {J : System T C R S P → Prop} {actions : List (Action T C A)}
    (hstart : J s) (hkeep : ∀ s s', J s → Acts O s s' → J s')
    (hrun : s.run O actions = some s') : J s' := by
  induction actions generalizing s with
  | nil =>
    obtain rfl : s = s' := Option.some.inj hrun
    exact hstart
  | cons action actions ih =>
    rw [System.run, List.foldlM_cons] at hrun
    obtain ⟨mid, hact, hrest⟩ := Option.bind_eq_some_iff.mp hrun
    exact ih (hkeep s mid hstart (acts_of_act hact)) hrest

/-- The history only grows. -/
lemma Acts.history_suffix (h : Acts O s s') : s.history <:+ s'.history := by
  cases h with
  | invoke => exact List.suffix_cons _ _
  | step => exact List.suffix_refl _
  | respond => exact List.suffix_cons _ _

/-- The history says which calls are being carried out. -/
def Recorded (s : System T C R S P) : Prop :=
  Proper s.history ∧ ∀ t, pending s.history t = (s.threads t).map Prod.fst

lemma recorded_start (shared : S) : Recorded (System.start shared : System T C R S P) :=
  ⟨trivial, fun _ => rfl⟩

lemma Recorded.acts (hs : Recorded s) (h : Acts O s s') : Recorded s' := by
  obtain ⟨hproper, hpending⟩ := hs
  cases h with
  | invoke t call hnone =>
    refine ⟨⟨?_, hproper⟩, fun u => ?_⟩
    · rw [hpending, hnone, Option.map_none]
    · simp only [pending, Function.update_apply]
      split_ifs
      · rfl
      · exact hpending u
  | step t choice call p p' shared hthread hstep =>
    refine ⟨hproper, fun u => ?_⟩
    simp only [hpending, Function.update_apply]
    split_ifs with hu
    · rw [hu, hthread]
      rfl
    · rfl
  | respond t choice call p r hthread hfinish =>
    refine ⟨⟨?_, hproper⟩, fun u => ?_⟩
    · rw [hpending, hthread, Option.map_some]
    · simp only [pending, Function.update_apply]
      split_ifs
      · rfl
      · exact hpending u

/-- What every phase of a call has is kept when the first phase has it and every step keeps it. -/
lemma Acts.phases {Q : T → C → P → Prop} (hstart : ∀ t call, Q t call (O.start t call))
    (hstep : ∀ t a call p p' shared shared', Q t call p →
      O.step t a call p shared = some (p', shared') → Q t call p')
    (hs : ∀ t call p, s.threads t = some (call, p) → Q t call p) (h : Acts O s s') :
    ∀ t call p, s'.threads t = some (call, p) → Q t call p := by
  intro u c q hu
  cases h with
  | invoke t call hnone =>
    simp only [Function.update_apply] at hu
    split_ifs at hu with hut
    · obtain ⟨rfl, rfl⟩ := Prod.mk.inj (Option.some.inj hu)
      exact hut ▸ hstart t call
    · exact hs u c q hu
  | step t a call p p' shared hthread hact =>
    simp only [Function.update_apply] at hu
    split_ifs at hu with hut
    · obtain ⟨rfl, rfl⟩ := Prod.mk.inj (Option.some.inj hu)
      exact hut ▸ hstep t a call p p' _ _ (hs t call p hthread) hact
    · exact hs u c q hu
  | respond t a call p r hthread hfinish =>
    simp only [Function.update_apply] at hu
    split_ifs at hu with hut
    exact hs u c q hu

/-! ## Calls that return -/

/-- The call of a thread can be brought to its end. -/
def CanReturn (O : Object T C R S P A) (s : System T C R S P) (t : T) : Prop :=
  ∃ actions s', s.run O actions = some s' ∧ s'.threads t = none

/-- An action that goes on with a call. -/
def Action.GoesOn : Action T C A → Prop
  | .invoke _ _ => False
  | .step _ _ | .respond _ _ => True

/-- The call of a thread can be brought to its end without any new calls. -/
def CanReturnAlone (O : Object T C R S P A) (s : System T C R S P) (t : T) : Prop :=
  ∃ actions s', (∀ a ∈ actions, a.GoesOn) ∧ s.run O actions = some s' ∧ s'.threads t = none

lemma CanReturnAlone.canReturn {t : T} (h : CanReturnAlone O s t) : CanReturn O s t := by
  obtain ⟨actions, s', -, hrun, hdone⟩ := h
  exact ⟨actions, s', hrun, hdone⟩

/-- When every state that is met lets some thread come closer to the end of a call, the call can be
brought to its end. -/
theorem canReturnAlone {D : Type} [Preorder D] [WellFoundedLT D] {J : System T C R S P → Prop}
    (hkeep : ∀ s s', J s → Acts O s s' → J s') {t : T} (dist : System T C R S P → D)
    (hcloser : ∀ s, J s → s.threads t ≠ none → ∃ action s', action.GoesOn ∧
      s.act O action = some s' ∧ (s'.threads t = none ∨ dist s' < dist s)) (hs : J s) :
    CanReturnAlone O s t := by
  induction hd : dist s using WellFoundedLT.induction generalizing s with
  | ind d ih =>
    obtain rfl := hd
    by_cases hnone : s.threads t = none
    · exact ⟨[], s, List.forall_mem_nil _, rfl, hnone⟩
    · obtain ⟨action, mid, hon, hact, hnext⟩ := hcloser s hs hnone
      have hcons : ∀ actions : List (Action T C A), (∀ a ∈ actions, a.GoesOn) →
          ∀ a ∈ action :: actions, a.GoesOn := fun _ => List.forall_mem_cons.mpr ∘ And.intro hon
      rcases hnext with hdone | hlt
      · exact ⟨[action], mid, hcons [] (List.forall_mem_nil _), run_cons hact, hdone⟩
      · obtain ⟨actions, s', hall, hrun, hdone⟩ :=
          ih (dist mid) hlt (hkeep s mid hs (acts_of_act hact)) rfl
        exact ⟨action :: actions, s', hcons actions hall, (run_cons hact).trans hrun, hdone⟩

end Lemmas

end Calls
