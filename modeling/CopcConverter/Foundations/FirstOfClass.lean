import Mathlib

/-!
# The first element of every class

Elements fall into classes and come in a strict order.  An element is the first one of its class in
a list when no element of the list is in its class and before it.  In a list that is sorted by the
order, these are the elements that share their class with no earlier one, which is how a loop with a
set of the classes seen so far finds them.

There is exactly one first element in every class that occurs, so there are as many of them as
classes.  Whether an element is the first one of its class depends on the elements of the list only,
not on their order, and for an element in the middle of a sorted list it depends on the part before
it.
-/

namespace FirstOfClass

variable {β ι : Type} {cls : β → ι} {before : β → β → Prop}

/-- No element of the list is in the class of `t` and before it. -/
def IsFirst (cls : β → ι) (before : β → β → Prop) (l : List β) (t : β) : Prop :=
  ∀ u ∈ l, cls u = cls t → ¬ before u t

lemma isFirst_congr {l l' : List β} (h : ∀ u, u ∈ l ↔ u ∈ l') (t : β) :
    IsFirst cls before l t ↔ IsFirst cls before l' t :=
  forall_congr' fun u => imp_congr (h u) Iff.rfl

/-- In a sorted list an element is first when no earlier one is in its class. -/
lemma isFirst_append_cons {done rest : List β} {t : β}
    (hsorted : (done ++ t :: rest).Pairwise before) (hasymm : ∀ a b, before a b → ¬ before b a) :
    IsFirst cls before (done ++ t :: rest) t ↔ ∀ u ∈ done, cls u ≠ cls t := by
  obtain ⟨-, hrest, hcross⟩ := List.pairwise_append.mp hsorted
  constructor
  · intro hfirst u hu hcls
    exact hfirst u (List.mem_append_left _ hu) hcls (hcross u hu t List.mem_cons_self)
  · intro hnone u hu hcls hbefore
    rcases List.mem_append.mp hu with hu | hu
    · exact hnone u hu hcls
    · rcases List.mem_cons.mp hu with rfl | hu
      · exact hasymm u u hbefore hbefore
      · exact hasymm t u (List.rel_of_pairwise_cons hrest hu) hbefore

variable [DecidableEq ι] [DecidableRel before]

instance (l : List β) (t : β) : Decidable (IsFirst cls before l t) :=
  inferInstanceAs (Decidable (∀ u ∈ l, cls u = cls t → ¬ before u t))

/-- The first elements of the classes, in the order of the list. -/
def firsts (cls : β → ι) (before : β → β → Prop) [DecidableRel before] (l : List β) : List β :=
  l.filter fun t => IsFirst cls before l t

/-- Two first elements are in different classes. -/
lemma nodup_map_firsts {l : List β} (hsorted : l.Pairwise before) :
    ((firsts cls before l).map cls).Nodup := by
  rw [List.Nodup, List.pairwise_map]
  apply (hsorted.sublist List.filter_sublist).imp_of_mem
  intro a b ha hb hab hcls
  obtain ⟨hal, -⟩ := List.mem_filter.mp ha
  obtain ⟨-, hb⟩ := List.mem_filter.mp hb
  exact (of_decide_eq_true hb) a hal hcls hab

/-- Every class that occurs has a first element. -/
lemma exists_mem_firsts {l : List β} (hsorted : l.Pairwise before)
    (hasymm : ∀ a b, before a b → ¬ before b a) {t : β} (ht : t ∈ l) :
    ∃ u ∈ firsts cls before l, cls u = cls t := by
  have hsome : (l.find? fun u => cls u = cls t).isSome := by
    rw [List.find?_isSome]
    exact ⟨t, ht, by simp⟩
  obtain ⟨u, hu⟩ := Option.isSome_iff_exists.mp hsome
  obtain ⟨hcls, done, rest, rfl, hdone⟩ := List.find?_eq_some_iff_append.mp hu
  have hcls : cls u = cls t := of_decide_eq_true hcls
  refine ⟨u, List.mem_filter.mpr ⟨by simp, decide_eq_true ?_⟩, hcls⟩
  rw [isFirst_append_cons hsorted hasymm]
  intro v hv heq
  have hv := hdone v hv
  rw [heq, hcls] at hv
  simp at hv

/-- There are as many first elements as classes. -/
lemma length_firsts {l : List β} (hsorted : l.Pairwise before)
    (hasymm : ∀ a b, before a b → ¬ before b a) :
    (firsts cls before l).length = (l.map cls).toFinset.card := by
  have hsame : ((firsts cls before l).map cls).toFinset = (l.map cls).toFinset := by
    ext c
    rw [List.mem_toFinset, List.mem_toFinset, List.mem_map, List.mem_map]
    constructor
    · rintro ⟨t, ht, rfl⟩
      exact ⟨t, (List.mem_filter.mp ht).1, rfl⟩
    · rintro ⟨t, ht, rfl⟩
      exact exists_mem_firsts hsorted hasymm ht
  rw [← hsame, List.toFinset_card_of_nodup (nodup_map_firsts hsorted), List.length_map]

end FirstOfClass
