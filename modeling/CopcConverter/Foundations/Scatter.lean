import Mathlib

/-!
# Slots that are filled in any order

A list of slots is filled by writes that say which slot they are for.  When every slot is written
and no write is wrong, the order of the writes does not matter: a slot that is written only right
values is right in the end, and one that was not written keeps what it had.  A loop of steps that
could fail but do not is such a loop of writes, and loops one after the other are one loop.

The writes may come from requests of which several are under way at a time.  How many there are, and
which of them is answered next, is up to the network; all that is known in the end is that every
request was finished once.  So the order of completion is a parameter, a rearrangement of the
requests, and a result about it holds however many requests are allowed to be under way.  The
requests carry the number of their slot, and a finished one still has the number it was given.
-/

namespace Scatter

variable {α β ε : Type}

/-! ## Writes -/

/-- Write values to slots, one after the other. -/
def scatter (slots : List α) (writes : List (ℕ × α)) : List α :=
  writes.foldl (fun slots w => slots.set w.1 w.2) slots

lemma length_scatter (slots : List α) (writes : List (ℕ × α)) :
    (scatter slots writes).length = slots.length := by
  induction writes generalizing slots with
  | nil => rfl
  | cons w writes ih => exact (ih _).trans List.length_set

/-- A slot that is written only right values, or was right before, is right in the end. -/
lemma getElem?_scatter {slots : List α} {writes : List (ℕ × α)} {i : ℕ} {a : α}
    (hi : i < slots.length) (hvalue : ∀ w ∈ writes, w.1 = i → w.2 = a)
    (h : slots[i]? = some a ∨ ∃ w ∈ writes, w.1 = i) : (scatter slots writes)[i]? = some a := by
  induction writes generalizing slots with
  | nil => exact h.elim id fun ⟨w, hw, _⟩ => absurd hw List.not_mem_nil
  | cons w writes ih =>
    refine @ih (slots.set w.1 w.2) (by rwa [List.length_set])
      (fun w' hw' => hvalue w' (List.mem_cons_of_mem _ hw')) ?_
    rcases eq_or_ne w.1 i with hwi | hwi
    · left
      rw [hwi, List.getElem?_set_self hi, hvalue w List.mem_cons_self hwi]
    · rw [List.getElem?_set_ne hwi]
      refine h.imp_right fun ⟨w', hw', heq⟩ => ⟨w', ?_, heq⟩
      exact (List.mem_cons.mp hw').resolve_left fun hself => hwi (hself ▸ heq)

/-- When every slot is written and every write is right, the slots hold what they should, whatever
the order of the writes. -/
theorem scatter_eq {slots out : List α} {writes : List (ℕ × α)} (hlen : slots.length = out.length)
    (hvalue : ∀ w ∈ writes, out[w.1]? = some w.2)
    (hcover : ∀ i < out.length, ∃ w ∈ writes, w.1 = i) :
    scatter slots writes = out := by
  refine List.ext_getElem? fun i => ?_
  rcases Nat.lt_or_ge i out.length with hi | hi
  · rw [List.getElem?_eq_getElem hi]
    refine getElem?_scatter (hlen ▸ hi) (fun w hw hwi => ?_) (Or.inr (hcover i hi))
    have hw := hvalue w hw
    rw [hwi, List.getElem?_eq_getElem hi] at hw
    exact (Option.some.inj hw).symm
  · rw [List.getElem?_eq_none hi, List.getElem?_eq_none]
    rw [length_scatter, hlen]
    exact hi

/-- A loop whose steps may fail, but do not, is a loop of writes. -/
lemma foldlM_eq_scatter {step : List α → β → Except ε (List α)} {write : β → ℕ × α} {l : List β}
    (h : ∀ b ∈ l, ∀ slots, step slots b = .ok (slots.set (write b).1 (write b).2))
    (slots : List α) : l.foldlM step slots = .ok (scatter slots (l.map write)) := by
  induction l generalizing slots with
  | nil => rfl
  | cons b l ih =>
    rw [List.foldlM_cons, h b List.mem_cons_self]
    exact ih (fun b' hb' => h b' (List.mem_cons_of_mem _ hb')) _

/-- Loops of writes one after the other are one loop of writes. -/
lemma foldlM_scatter {step : List α → β → Except ε (List α)} {writes : β → List (ℕ × α)}
    {l : List β} (h : ∀ b ∈ l, ∀ slots, step slots b = .ok (scatter slots (writes b)))
    (slots : List α) : l.foldlM step slots = .ok (scatter slots (l.flatMap writes)) := by
  induction l generalizing slots with
  | nil => rfl
  | cons b l ih =>
    rw [List.foldlM_cons, h b List.mem_cons_self, List.flatMap_cons]
    refine (ih (fun b' hb' => h b' (List.mem_cons_of_mem _ hb')) _).trans ?_
    rw [scatter, scatter, scatter, List.foldl_append]

/-! ## Requests under way -/

/-- An order in which some requests are finished: every request once, in whatever order their
answers come. -/
structure Completion (requests : List α) where
  finished : List α
  perm : finished.Perm requests

namespace Completion

variable {requests : List α}

/-- The request that is given last is finished first. -/
def reversed (requests : List α) : Completion requests := ⟨requests.reverse, requests.reverse_perm⟩

lemma mem_finished (c : Completion requests) {a : α} : a ∈ c.finished ↔ a ∈ requests :=
  c.perm.mem_iff

/-- What is finished of numbered requests is a request with its own number. -/
lemma getElem?_of_mem {requests : List α} (c : Completion requests.zipIdx) {e : α × ℕ}
    (he : e ∈ c.finished) : requests[e.2]? = some e.1 :=
  List.mem_zipIdx_iff_getElem?.mp (c.mem_finished.mp he)

/-- Every numbered request is finished. -/
lemma exists_of_lt {requests : List α} (c : Completion requests.zipIdx) {i : ℕ}
    (hi : i < requests.length) : ∃ e ∈ c.finished, e.2 = i :=
  ⟨(requests[i], i), c.mem_finished.mpr
    (List.mem_zipIdx_iff_getElem?.mpr (List.getElem?_eq_getElem hi)), rfl⟩

end Completion

end Scatter
