import Mathlib.Data.Int.Order.Basic
import Mathlib.Data.List.Induction
import Mathlib.Order.Basic
import Mathlib.Tactic.SplitIfs

/-!
# Running best values

A pass over some values that keeps the better of the value so far and the next one.  Better means a
lower rank; a value that is not admissible is never better than anything, so that it is only kept
when the pass starts with it.

Running minima and maxima of floating-point numbers are of this kind, with NaN as the value that is
not admissible.  Such a pass ends with an admissible value of the least rank, if there is one.
Passes over parts, each from the same start, combine to a pass over the whole, and the rank of the
result does not depend on the order of the values; this is what makes it safe to gather statistics
in parallel.
-/

namespace RunningBest

variable {α : Type*}

/-- Keep the better one, and the first of two equally good ones. -/
def keep (better : α → α → Bool) (best v : α) : α := if better v best then v else best

/-- Better than an admissible value is an admissible value of lower rank. -/
def Ranks (better : α → α → Bool) (admissible : α → Prop) (rank : α → ℤ) : Prop :=
  ∀ v best, admissible best → (better v best = true ↔ admissible v ∧ rank v < rank best)

variable {better : α → α → Bool} {admissible : α → Prop} {rank : α → ℤ}

section Keep

variable (h : Ranks better admissible rank)
include h

/-- What is kept is admissible and not worse than either value. -/
lemma keep_spec {best v : α} (hbest : admissible best) :
    admissible (keep better best v) ∧ rank (keep better best v) ≤ rank best ∧
      (admissible v → rank (keep better best v) ≤ rank v) := by
  rw [keep]
  split_ifs with hv
  · have hlt := (h v best hbest).mp hv
    exact ⟨hlt.1, hlt.2.le, fun _ => le_rfl⟩
  · refine ⟨hbest, le_rfl, fun hadm => ?_⟩
    by_contra hlt
    exact hv ((h v best hbest).mpr ⟨hadm, not_le.mp hlt⟩)

/-- A value that is not worse stays. -/
lemma keep_of_le {best v : α} (hbest : admissible best) (hle : rank best ≤ rank v) :
    keep better best v = best := by
  rw [keep, if_neg]
  intro hv
  exact absurd ((h v best hbest).mp hv).2 (not_lt.mpr hle)

lemma keep_assoc {a b c : α} (ha : admissible a) (hb : admissible b) :
    keep better (keep better a b) c = keep better a (keep better b c) := by
  by_cases hcb : better c b = true
  · have hbc := (h c b hb).mp hcb
    have hright : keep better b c = c := if_pos hcb
    rw [hright]
    by_cases hba : better b a = true
    · have hab := (h b a ha).mp hba
      have hca : better c a = true := (h c a ha).mpr ⟨hbc.1, hbc.2.trans hab.2⟩
      rw [keep, keep, if_pos hba, if_pos hcb, keep, if_pos hca]
    · rw [show keep better a b = a from if_neg hba]
  · have hright : keep better b c = b := if_neg hcb
    rw [hright]
    by_cases hba : better b a = true
    · rw [show keep better a b = b from if_pos hba, hright]
    · have hleft : keep better a b = a := if_neg hba
      rw [hleft, keep, if_neg]
      intro hca
      have hlt := (h c a ha).mp hca
      -- what beats `a` beats `b` as well, since `b` does not beat `a`
      have hle : rank a ≤ rank b := by
        by_contra hlt'
        exact hba ((h b a ha).mpr ⟨hb, not_le.mp hlt'⟩)
      exact hcb ((h c b hb).mpr ⟨hlt.1, hlt.2.trans_le hle⟩)

/-- What a pass keeps is admissible, one of the values it started from or saw, and not worse than
any of them. -/
lemma foldl_keep_spec (vs : List α) {best : α} (hbest : admissible best) :
    admissible (vs.foldl (keep better) best) ∧
      vs.foldl (keep better) best ∈ best :: vs ∧
      rank (vs.foldl (keep better) best) ≤ rank best ∧
      ∀ v ∈ vs, admissible v → rank (vs.foldl (keep better) best) ≤ rank v := by
  induction vs generalizing best with
  | nil => exact ⟨hbest, List.mem_singleton_self best, le_rfl, fun v hv => by cases hv⟩
  | cons v vs ih =>
    obtain ⟨hadm, hle, hlev⟩ := keep_spec h (v := v) hbest
    obtain ⟨hres, hmem, hresle, hall⟩ := ih hadm
    rw [List.foldl_cons]
    refine ⟨hres, ?_, hresle.trans hle, ?_⟩
    · rcases List.mem_cons.mp hmem with heq | hin
      · rw [heq, keep]
        split_ifs
        · exact List.mem_cons_of_mem _ List.mem_cons_self
        · exact List.mem_cons_self
      · exact List.mem_cons_of_mem _ (List.mem_cons_of_mem _ hin)
    · intro w hw hwadm
      rcases List.mem_cons.mp hw with rfl | hin
      · exact hresle.trans (hlev hwadm)
      · exact hall w hin hwadm

/-- A pass from the start, merged into the best so far, is the pass from the best so far. -/
lemma keep_foldl (vs : List α) {start best : α} (hstart : admissible start)
    (hbest : admissible best) (hle : rank best ≤ rank start) :
    keep better best (vs.foldl (keep better) start) = vs.foldl (keep better) best := by
  induction vs using List.reverseRecOn with
  | nil => exact keep_of_le h hbest hle
  | append_singleton vs v ih =>
    have hadm := (foldl_keep_spec h vs hstart).1
    rw [List.foldl_append, List.foldl_append, List.foldl_cons, List.foldl_nil, List.foldl_cons,
      List.foldl_nil, ← keep_assoc h hbest hadm, ih]

/-- The rank of what is kept depends on the set of values only. -/
lemma rank_foldl_keep_congr {vs ws : List α} (hsame : ∀ v, v ∈ vs ↔ v ∈ ws) {best : α}
    (hbest : admissible best) :
    rank (vs.foldl (keep better) best) = rank (ws.foldl (keep better) best) := by
  have hle : ∀ {vs ws : List α}, (∀ v ∈ ws, v ∈ vs) →
      rank (vs.foldl (keep better) best) ≤ rank (ws.foldl (keep better) best) := by
    intro vs ws hsub
    obtain ⟨-, -, hbound, hall⟩ := foldl_keep_spec h vs hbest
    obtain ⟨hadm, hmem, -, -⟩ := foldl_keep_spec h ws hbest
    rcases List.mem_cons.mp hmem with heq | hin
    · rw [heq]
      exact hbound
    · exact hall _ (hsub _ hin) hadm
  exact le_antisymm (hle fun v hv => (hsame v).mpr hv) (hle fun v hv => (hsame v).mp hv)

end Keep

end RunningBest
