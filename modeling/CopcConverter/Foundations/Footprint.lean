import Mathlib

/-!
# Folds of local updates

An update is local when it changes the state only at the places of its footprint, and what it puts
there depends only on what was there.  Local updates with disjoint footprints do not see each other,
so a fold over them has, at the places of one of them, the value this one alone would have put
there; and elsewhere nothing has changed.  In particular the order of the fold does not matter.

The state is seen through a `view`, so that finite maps and functions are treated alike: a map is
seen as what it reads at every key, and two maps that read the same are not told apart.  Rounds of
the octree build are such folds, over the groups of siblings.
-/

namespace Footprint

variable {S τ κ V : Type*}

/-- `step` changes the view only at the footprint of its argument, by what was there. -/
structure Local (view : S → κ → V) (fp : τ → κ → Prop) (step : S → τ → S) : Prop where
  frame : ∀ s t k, ¬ fp t k → view (step s t) k = view s k
  congr : ∀ s s' t, (∀ k, fp t k → view s k = view s' k) →
    ∀ k, fp t k → view (step s t) k = view (step s' t) k

/-- The footprints of two updates do not meet. -/
def Apart (fp : τ → κ → Prop) (t u : τ) : Prop := ∀ k, fp t k → ¬ fp u k

variable {view : S → κ → V} {fp : τ → κ → Prop} {step : S → τ → S}

/-- A fold changes nothing outside the footprints. -/
lemma foldl_frame (h : Local view fp step) {L : List τ} {k : κ} (hk : ∀ t ∈ L, ¬ fp t k) (s : S) :
    view (L.foldl step s) k = view s k := by
  induction L generalizing s with
  | nil => rfl
  | cons t L ih =>
    rw [List.foldl_cons, ih fun u hu => hk u (List.mem_cons_of_mem _ hu),
      h.frame s t k (hk t List.mem_cons_self)]

/-- At the footprint of one of the updates, a fold does what this update alone does. -/
lemma foldl_view (h : Local view fp step) {L : List τ} (hL : L.Pairwise (Apart fp)) {t : τ}
    (ht : t ∈ L) {k : κ} (hk : fp t k) (s : S) :
    view (L.foldl step s) k = view (step s t) k := by
  induction L generalizing s with
  | nil => cases ht
  | cons u L ih =>
    obtain ⟨hu, hL'⟩ := List.pairwise_cons.mp hL
    rw [List.foldl_cons]
    rcases List.mem_cons.mp ht with rfl | htL
    · exact foldl_frame h (fun v hv => hu v hv k hk) _
    · rw [ih hL' htL]
      refine h.congr _ _ t (fun j hj => ?_) k hk
      exact h.frame s u j fun huj => hu t htL j huj hj

end Footprint
