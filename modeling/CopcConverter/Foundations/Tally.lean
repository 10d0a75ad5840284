import Mathlib

/-!
# Tallies

A finite map that counts under keys, as `*map.entry(k).or_insert(0) += n` builds it.  A missing key
reads as zero.  Whatever order the numbers are added in, the number under a key is the sum of those
added under it.

Counts may also be made coarser.  The mass of an image is the sum of the numbers whose keys are
mapped to it; adding a number adds to the mass of the image of its key, and the mass does not depend
on the order of the additions.  So counting under coarser keys may be done on the counts instead of
on the elements, which is what lets the split level of a chunk be chosen from one pass over its
points.  The largest number is at least every number, and is the number of some key unless it is
zero.
-/

/-- A finite map from keys to numbers. -/
abbrev Tally (κ : Type*) := AList fun _ : κ => ℕ

namespace Tally

variable {κ μ : Type*} [DecidableEq κ] [DecidableEq μ]

/-- The number under a key; zero when the key is missing. -/
def get (m : Tally κ) (k : κ) : ℕ := (m.lookup k).getD 0

/-- Add to the number under a key. -/
def add (m : Tally κ) (k : κ) (n : ℕ) : Tally κ := m.insert k (m.get k + n)

/-- The largest number. -/
def maximum (m : Tally κ) : ℕ := (m.entries.map fun e => e.2).foldl max 0

/-- The sum of the numbers whose keys have the image `j`. -/
def mass (f : κ → μ) (j : μ) (l : List (Sigma fun _ : κ => ℕ)) : ℕ :=
  ((l.filter fun e => f e.1 = j).map fun e => e.2).sum

@[simp] lemma get_empty (k : κ) : (∅ : Tally κ).get k = 0 := by
  simp [get]

lemma get_add (m : Tally κ) (k j : κ) (n : ℕ) :
    (m.add k n).get j = m.get j + if k = j then n else 0 := by
  rw [add, get]
  split_ifs with h
  · subst h
    rw [AList.lookup_insert, Option.getD_some]
  · rw [AList.lookup_insert_ne (Ne.symm h), add_zero, get]

/-- Adding some numbers one after the other. -/
lemma get_foldl_add {α : Type*} (key : α → κ) (num : α → ℕ) (l : List α) (m : Tally κ) (j : κ) :
    (l.foldl (fun m a => m.add (key a) (num a)) m).get j =
      m.get j + ((l.filter fun a => key a = j).map num).sum := by
  induction l generalizing m with
  | nil => simp
  | cons a l ih =>
    rw [List.foldl_cons, ih, get_add, List.filter_cons]
    by_cases h : key a = j
    · simp [h, add_assoc]
    · simp [h]

omit [DecidableEq κ] in
@[simp] lemma mass_cons (f : κ → μ) (j : μ) (e : Sigma fun _ : κ => ℕ)
    (l : List (Sigma fun _ : κ => ℕ)) :
    mass f j (e :: l) = (if f e.1 = j then e.2 else 0) + mass f j l := by
  rw [mass, List.filter_cons]
  by_cases h : f e.1 = j
  · simp [h, mass]
  · simp [h, mass]

omit [DecidableEq κ] in
lemma mass_append (f : κ → μ) (j : μ) (l l' : List (Sigma fun _ : κ => ℕ)) :
    mass f j (l ++ l') = mass f j l + mass f j l' := by
  rw [mass, List.filter_append, List.map_append, List.sum_append]
  rfl

/-- A new number goes into the coarser number of its key. -/
lemma mass_add (f : κ → μ) (j : μ) (m : Tally κ) (k : κ) (n : ℕ) :
    mass f j (m.add k n).entries = mass f j m.entries + if f k = j then n else 0 := by
  rw [add, AList.entries_insert, mass_cons]
  by_cases hk : k ∈ m
  · obtain ⟨c, l₁, l₂, -, hl, herase⟩ := List.exists_of_kerase (AList.mem_keys.mp hk)
    have hget : m.get k = c := by
      have hc : c ∈ m.lookup k := by
        rw [AList.mem_lookup_iff, hl]
        simp
      rw [get, Option.mem_def.mp hc, Option.getD_some]
    rw [herase, hl, mass_append, mass_append, mass_cons, hget]
    dsimp only
    split_ifs <;> omega
  · have hzero : m.get k = 0 := by rw [get, AList.lookup_eq_none.mpr hk, Option.getD_none]
    rw [List.kerase_of_notMem_keys hk, hzero, Nat.zero_add, Nat.add_comm]

/-- Counting under coarser keys on the counts is counting under the coarser keys. -/
lemma mass_foldl_add {α : Type*} (key : α → κ) (num : α → ℕ) (f : κ → μ) (j : μ) (l : List α)
    (m : Tally κ) : mass f j (l.foldl (fun m a => m.add (key a) (num a)) m).entries =
      mass f j m.entries + ((l.filter fun a => f (key a) = j).map num).sum := by
  induction l generalizing m with
  | nil => simp
  | cons a l ih =>
    rw [List.foldl_cons, ih, mass_add, List.filter_cons]
    by_cases h : f (key a) = j
    · simp [h, add_assoc]
    · simp [h]

omit [DecidableEq κ] in
lemma mass_perm (f : κ → μ) (j : μ) {l l' : List (Sigma fun _ : κ => ℕ)} (h : l.Perm l') :
    mass f j l = mass f j l' := ((h.filter _).map _).sum_eq

/-- No number is larger than the largest one. -/
lemma get_le_maximum (m : Tally κ) (k : κ) : m.get k ≤ m.maximum := by
  rw [get]
  cases hk : m.lookup k with
  | none => exact Nat.zero_le _
  | some n =>
    have hmem : (⟨k, n⟩ : Sigma fun _ : κ => ℕ) ∈ m.entries :=
      AList.mem_lookup_iff.mp (Option.mem_def.mpr hk)
    rw [maximum, List.foldl_eq_foldr, Option.getD_some]
    exact List.le_max_of_le' 0 (List.mem_map_of_mem hmem) le_rfl

/-- The largest number is a bound that all numbers keep to. -/
lemma maximum_le {m : Tally κ} {n : ℕ} (h : ∀ k, m.get k ≤ n) : m.maximum ≤ n := by
  rw [maximum, List.foldl_eq_foldr]
  refine List.max_le_of_forall_le _ _ fun c hc => ?_
  obtain ⟨⟨k, c⟩, he, rfl⟩ := List.mem_map.mp hc
  have hk : m.lookup k = some c := Option.mem_def.mp (AList.mem_lookup_iff.mpr he)
  have hle := h k
  rwa [get, hk, Option.getD_some] at hle

end Tally
