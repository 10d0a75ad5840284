import Mathlib

/-!
# Bounded totals

The amounts at all places of a store add up to at most a given total.  The places may be infinitely
many, so the total is bounded over every finite set of them; this says at once that only finitely
many amounts differ from zero.

The bound is kept when amounts are only moved around inside a group of places, as long as the group
together has no more than before, and it grows by what is added.  So a program that takes points out
of some nodes and puts them into others never has more of them in any place than there are in all,
whatever the places are.  The sizes of nodes are bounded in this way while the octree is built,
where the nodes that are merged come from different tasks.
-/

namespace Capacity

variable {κ : Type*} {f g r : κ → ℕ} {n m : ℕ}

/-- The amounts at all places add up to at most `n`. -/
def AtMost (f : κ → ℕ) (n : ℕ) : Prop := ∀ places : Finset κ, ∑ k ∈ places, f k ≤ n

lemma AtMost.zero : AtMost (fun _ : κ => 0) 0 := fun _ => by simp

lemma AtMost.mono (h : AtMost f n) (hle : n ≤ m) : AtMost f m := fun places => (h places).trans hle

/-- Different places have together at most the total. -/
lemma AtMost.sum_le [DecidableEq κ] (h : AtMost f n) {places : List κ} (hnodup : places.Nodup) :
    (places.map f).sum ≤ n := by
  rw [← List.sum_toFinset f hnodup]
  exact h _

/-- Amounts that stay inside a group of places, or get less, keep the total. -/
lemma AtMost.regroup [DecidableEq κ] (h : AtMost f n) (group : Finset κ)
    (hframe : ∀ k, k ∉ group → g k = f k) (hgroup : ∑ k ∈ group, g k ≤ ∑ k ∈ group, f k) :
    AtMost g n := by
  intro places
  have hrest : ∑ k ∈ (places ∪ group) \ group, g k = ∑ k ∈ (places ∪ group) \ group, f k :=
    Finset.sum_congr rfl fun k hk => hframe k (Finset.mem_sdiff.mp hk).2
  calc ∑ k ∈ places, g k
      ≤ ∑ k ∈ places ∪ group, g k := Finset.sum_le_sum_of_subset Finset.subset_union_left
    _ = ∑ k ∈ (places ∪ group) \ group, g k + ∑ k ∈ group, g k :=
        (Finset.sum_sdiff Finset.subset_union_right).symm
    _ ≤ ∑ k ∈ (places ∪ group) \ group, f k + ∑ k ∈ group, f k :=
        Nat.add_le_add hrest.le hgroup
    _ = ∑ k ∈ places ∪ group, f k := Finset.sum_sdiff Finset.subset_union_right
    _ ≤ n := h _

/-- What is added grows the total. -/
lemma AtMost.add (h : AtMost f n) (hg : AtMost g m) (hle : ∀ k, r k ≤ f k + g k) :
    AtMost r (n + m) := by
  intro places
  calc ∑ k ∈ places, r k
      ≤ ∑ k ∈ places, (f k + g k) := Finset.sum_le_sum fun k _ => hle k
    _ = ∑ k ∈ places, f k + ∑ k ∈ places, g k := Finset.sum_add_distrib
    _ ≤ n + m := Nat.add_le_add (h places) (hg places)

end Capacity
