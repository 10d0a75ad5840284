import Mathlib

/-!
# Splitting tagged elements

A list of elements, each tagged with the number of the bucket it came from, is split into accepted
elements and, for every bucket, the elements that stay behind.  `Split` says that no element changes
its bucket, is lost or is duplicated.  The lemmas are the moves a splitting loop can make: an
element is accepted, it is rejected back into its bucket, or an accepted one is given back.

The last move is there for a loop that protects the buckets: a bucket that contributed elements and
has nothing left gets its last accepted element back.  After the round for every bucket no
contributing bucket is empty, and the number of accepted elements has dropped by the number of
buckets that needed one.  When the accepted elements come in an order, the loop is a filter: it
takes out the last element of every such bucket.
-/

namespace TaggedSplit

variable {α : Type*}

/-- The elements of the list tagged `i`. -/
def share (i : ℕ) (l : List (ℕ × α)) : Multiset α := ↑((l.filter fun t => t.1 = i).map Prod.snd)

@[simp] lemma share_nil (i : ℕ) : share i ([] : List (ℕ × α)) = 0 := rfl

lemma share_cons (i : ℕ) (t : ℕ × α) (l : List (ℕ × α)) :
    share i (t :: l) = (if t.1 = i then {t.2} else 0) + share i l := by
  unfold share
  rw [List.filter_cons]
  split_ifs with h h' h'
  · rfl
  · simp at h; exact absurd h h'
  · simp at h; exact absurd h' h
  · simp

lemma share_append (i : ℕ) (l l' : List (ℕ × α)) :
    share i (l ++ l') = share i l + share i l' := by
  simp [share]

lemma share_perm {i : ℕ} {l l' : List (ℕ × α)} (h : l.Perm l') : share i l = share i l' :=
  Multiset.coe_eq_coe.mpr ((h.filter _).map _)

lemma share_eq_zero {i : ℕ} {l : List (ℕ × α)} : share i l = 0 ↔ ∀ t ∈ l, t.1 ≠ i := by
  simp [share, Multiset.coe_eq_zero]

/-- Summing the shares of all tags gives every element once. -/
lemma sum_share {n : ℕ} {l : List (ℕ × α)} (h : ∀ t ∈ l, t.1 < n) :
    ((List.range n).map fun i => share i l).sum = ↑(l.map Prod.snd) := by
  induction l with
  | nil => simp
  | cons t l ih =>
    have hone : ((List.range n).map fun i => if t.1 = i then ({t.2} : Multiset α) else 0).sum =
        {t.2} := by
      change ∑ i ∈ Finset.range n, (if t.1 = i then ({t.2} : Multiset α) else 0) = {t.2}
      rw [Finset.sum_ite_eq, if_pos (Finset.mem_range.mpr (h t List.mem_cons_self))]
    simp only [share_cons, List.sum_map_add, hone, List.map_cons]
    rw [ih fun u hu => h u (List.mem_cons_of_mem _ hu)]
    rfl

/-- Tag every element of a list of buckets with the number of its bucket. -/
def tagged (buckets : List (List α)) : List (ℕ × α) :=
  buckets.zipIdx.flatMap fun (pts, i) => pts.map fun p => (i, p)

lemma mem_tagged_lt {buckets : List (List α)} {t : ℕ × α} (h : t ∈ tagged buckets) :
    t.1 < buckets.length := by
  obtain ⟨⟨pts, i⟩, hmem, hp⟩ := List.mem_flatMap.mp h
  obtain ⟨p, -, rfl⟩ := List.mem_map.mp hp
  simpa using List.snd_lt_of_mem_zipIdx hmem

lemma map_snd_tagged (buckets : List (List α)) :
    (tagged buckets).map Prod.snd = buckets.flatten := by
  have hidx : ∀ n, ((buckets.zipIdx n).flatMap fun (pts, i) => pts.map fun p => (i, p)).map
      Prod.snd = buckets.flatten := by
    induction buckets with
    | nil => intro n; rfl
    | cons pts buckets ih =>
      intro n
      rw [List.zipIdx_cons, List.flatMap_cons, List.map_append, ih, List.flatten_cons]
      simp
  exact hidx 0

/-- The elements tagged with a bucket's number are the elements of the bucket. -/
lemma share_tagged (buckets : List (List α)) (i : ℕ) :
    share i (tagged buckets) = ↑(buckets.getD i []) := by
  have hidx : ∀ n, share (n + i) ((buckets.zipIdx n).flatMap fun (pts, j) =>
      pts.map fun p => (j, p)) = ↑(buckets.getD i []) := by
    induction buckets generalizing i with
    | nil => intro n; rfl
    | cons pts buckets ih =>
      intro n
      have hsame : share n (pts.map fun p => (n, p)) = ↑pts := by
        unfold share
        rw [List.filter_eq_self.mpr (by simp), List.map_map]
        exact congrArg _ (List.map_id pts)
      rw [List.zipIdx_cons, List.flatMap_cons, share_append]
      cases i with
      | zero =>
        have hlater : share n ((buckets.zipIdx (n + 1)).flatMap fun (pts, j) =>
            pts.map fun p => (j, p)) = 0 := by
          refine share_eq_zero.mpr fun t ht he => ?_
          obtain ⟨⟨pts', j⟩, hmem, hp⟩ := List.mem_flatMap.mp ht
          obtain ⟨p, -, rfl⟩ := List.mem_map.mp hp
          have := List.le_snd_of_mem_zipIdx hmem
          simp only at he this
          omega
        rw [Nat.add_zero, hsame, hlater, add_zero, List.getD_cons_zero]
      | succ i =>
        have hother : share (n + (i + 1)) (pts.map fun p => (n, p)) = 0 := by
          refine share_eq_zero.mpr fun t ht he => ?_
          obtain ⟨p, -, rfl⟩ := List.mem_map.mp ht
          simp only at he
          omega
        rw [hother, zero_add, List.getD_cons_succ, ← ih i (n + 1)]
        congr 1
        omega
  have := hidx 0
  rwa [Nat.zero_add] at this

/-! ## Splits -/

/-- The list `pts` is split into the accepted list `acc` and what stays behind in each of `n`
buckets. -/
structure Split (n : ℕ) (pts acc : List (ℕ × α)) (rem : List (List α)) : Prop where
  length : rem.length = n
  balanced : ∀ i, i < n → share i acc + ↑(rem.getD i []) = share i pts
  tags : ∀ t ∈ acc, t.1 < n

namespace Split

variable {n : ℕ} {pts pts' acc acc' : List (ℕ × α)} {rem : List (List α)} {t : ℕ × α}

lemma nil : Split n ([] : List (ℕ × α)) [] (List.replicate n []) where
  length := List.length_replicate
  balanced i hi := by simp [hi]
  tags t ht := absurd ht List.not_mem_nil

/-- Splitting does not see the order of the elements. -/
lemma perm (h : Split n pts acc rem) (hp : pts.Perm pts') : Split n pts' acc rem where
  length := h.length
  balanced i hi := by rw [h.balanced i hi, share_perm hp]
  tags := h.tags

/-- The next element is accepted. -/
lemma accept (h : Split n pts acc rem) (ht : t.1 < n) :
    Split n (pts ++ [t]) (acc ++ [t]) rem where
  length := h.length
  balanced i hi := by
    rw [share_append, share_append, ← h.balanced i hi]
    exact add_right_comm _ _ _
  tags u hu := by
    rcases List.mem_append.mp hu with hu | hu
    · exact h.tags u hu
    · rwa [List.mem_singleton.mp hu]

lemma getD_modify (rem : List (List α)) (f : List α → List α) {i j : ℕ} (hi : i < rem.length) :
    (rem.modify j f).getD i [] = if j = i then f (rem.getD i []) else rem.getD i [] := by
  rw [List.getD_eq_getElem?_getD, List.getElem?_modify, List.getD_eq_getElem?_getD,
    List.getElem?_eq_getElem hi]
  split_ifs <;> rfl

/-- The next element stays in its bucket. -/
lemma reject (h : Split n pts acc rem) :
    Split n (pts ++ [t]) acc (rem.modify t.1 (· ++ [t.2])) where
  length := by rw [List.length_modify, h.length]
  balanced i hi := by
    rw [getD_modify _ _ (by rw [h.length]; exact hi), share_append, ← h.balanced i hi, share_cons,
      share_nil, add_zero]
    split_ifs with he
    · rw [← Multiset.coe_add, add_assoc]
      rfl
    · rw [add_zero]
  tags := h.tags

/-- An accepted element goes back to its bucket. -/
lemma giveBack (h : Split n pts acc rem) (hp : acc.Perm (t :: acc')) :
    Split n pts acc' (rem.modify t.1 (· ++ [t.2])) where
  length := by rw [List.length_modify, h.length]
  balanced i hi := by
    rw [getD_modify _ _ (by rw [h.length]; exact hi), ← h.balanced i hi, share_perm hp, share_cons]
    split_ifs with he
    · rw [← Multiset.coe_add, add_comm (_ : Multiset α) ↑[t.2], add_left_comm, add_assoc]
      rfl
    · rw [zero_add]
  tags u hu := h.tags u (hp.mem_iff.mpr (List.mem_cons_of_mem _ hu))

/-- A bucket keeps a part of what it had. -/
lemma rem_le (h : Split n pts acc rem) {i : ℕ} (hi : i < n) :
    (↑(rem.getD i []) : Multiset α) ≤ share i pts := by
  rw [← h.balanced i hi]
  exact Multiset.le_add_left _ _

/-- Accepted and remaining elements together are all elements. -/
lemma total (h : Split n pts acc rem) (hpts : ∀ t ∈ pts, t.1 < n) :
    (↑(acc.map Prod.snd) : Multiset α) + (rem.map Multiset.ofList).sum =
      ↑(pts.map Prod.snd) := by
  have hrem : rem.map Multiset.ofList =
      (List.range n).map fun i => (↑(rem.getD i []) : Multiset α) := by
    refine List.ext_getElem (by simp [h.length]) fun i h₁ h₂ => ?_
    have hi : i < rem.length := by simpa using h₁
    simp [hi]
  rw [← sum_share h.tags, ← sum_share hpts, hrem, ← List.sum_map_add]
  congr 1
  exact List.map_congr_left fun i hi => h.balanced i (List.mem_range.mp hi)

end Split

/-! ## Handing the last element of a bucket back -/

/-- The last element tagged `i`, and the list without it. -/
def removeLast (i : ℕ) : List (ℕ × α) → Option (α × List (ℕ × α))
  | [] => none
  | t :: l =>
    match removeLast i l with
    | some (p, l') => some (p, t :: l')
    | none => if t.1 = i then some (t.2, l) else none

lemma removeLast_perm {i : ℕ} {l l' : List (ℕ × α)} {p : α} (h : removeLast i l = some (p, l')) :
    l.Perm ((i, p) :: l') := by
  induction l generalizing p l' with
  | nil => cases h
  | cons t l ih =>
    rw [removeLast] at h
    cases hrec : removeLast i l with
    | some r =>
      obtain ⟨q, l''⟩ := r
      rw [hrec] at h
      cases h
      exact ((ih hrec).cons t).trans (List.Perm.swap _ _ _)
    | none =>
      rw [hrec] at h
      simp only at h
      split_ifs at h with ht
      cases h
      obtain ⟨j, p⟩ := t
      simp only at ht
      rw [ht]

lemma removeLast_eq_none {i : ℕ} {l : List (ℕ × α)} (h : removeLast i l = none) :
    ∀ t ∈ l, t.1 ≠ i := by
  induction l with
  | nil => simp
  | cons t l ih =>
    rw [removeLast] at h
    cases hrec : removeLast i l with
    | some r =>
      rw [hrec] at h
      cases h
    | none =>
      rw [hrec] at h
      simp only at h
      split_ifs at h with ht
      intro u hu
      rcases List.mem_cons.mp hu with rfl | hu
      · exact ht
      · exact ih hrec u hu

/-- The other elements stay in their order. -/
lemma removeLast_sublist {i : ℕ} {l l' : List (ℕ × α)} {p : α}
    (h : removeLast i l = some (p, l')) : l'.Sublist l := by
  induction l generalizing p l' with
  | nil => cases h
  | cons t l ih =>
    rw [removeLast] at h
    cases hrec : removeLast i l with
    | some r =>
      obtain ⟨q, l''⟩ := r
      rw [hrec] at h
      cases h
      exact (ih hrec).cons_cons t
    | none =>
      rw [hrec] at h
      simp only at h
      split_ifs at h
      cases h
      exact List.sublist_cons_self t l

/-- One round of the loop that protects the buckets: a bucket that contributed elements and is now
empty gets its last accepted element back. -/
def protect (contributed : ℕ → Bool) (s : List (ℕ × α) × List (List α)) (i : ℕ) :
    List (ℕ × α) × List (List α) :=
  if contributed i && (s.2.getD i []).isEmpty then
    match removeLast i s.1 with
    | some (p, acc) => (acc, s.2.modify i (· ++ [p]))
    | none => s
  else s

section Protect

variable {n : ℕ} {pts : List (ℕ × α)} {s : List (ℕ × α) × List (List α)} {contributed : ℕ → Bool}

lemma Split.protect (h : Split n pts s.1 s.2) (i : ℕ) :
    Split n pts (protect contributed s i).1 (protect contributed s i).2 := by
  unfold TaggedSplit.protect
  split_ifs
  · cases hl : removeLast i s.1 with
    | none => exact h
    | some r => exact h.giveBack (removeLast_perm hl)
  · exact h

/-- Protecting a bucket never empties another one. -/
lemma protect_ne_nil {i j : ℕ} (hj : s.2.getD j [] ≠ []) :
    (protect contributed s i).2.getD j [] ≠ [] := by
  unfold protect
  split_ifs
  · cases hl : removeLast i s.1 with
    | none => exact hj
    | some r =>
      have hlt : j < s.2.length := by
        by_contra hge
        exact hj (by rw [List.getD_eq_getElem?_getD, List.getElem?_eq_none (by omega)]; rfl)
      simp only
      rw [Split.getD_modify _ _ hlt]
      split_ifs
      · simp
      · exact hj
  · exact hj

/-- After its round a bucket that had elements has one. -/
lemma protect_self (h : Split n pts s.1 s.2) {i : ℕ} (hi : i < n)
    (hc : share i pts ≠ 0 → contributed i = true) (hne : share i pts ≠ 0) :
    (protect contributed s i).2.getD i [] ≠ [] := by
  unfold protect
  by_cases hempty : s.2.getD i [] = []
  · rw [hc hne, hempty]
    simp only [List.isEmpty_nil, Bool.and_self, if_true]
    cases hl : removeLast i s.1 with
    | none =>
      -- every element of the bucket was accepted, so one of them can be handed back
      have hbal := h.balanced i hi
      rw [hempty, share_eq_zero.mpr (removeLast_eq_none hl)] at hbal
      exact absurd hbal.symm (by simpa using hne)
    | some r =>
      simp only
      rw [Split.getD_modify _ _ (by rw [h.length]; exact hi), if_pos rfl]
      simp
  · have hfalse : (s.2.getD i []).isEmpty = false := by simpa using hempty
    rw [hfalse]
    simpa using hempty

/-- The whole loop protects every bucket that contributed. -/
lemma protect_all (h : Split n pts s.1 s.2) (hc : ∀ i, share i pts ≠ 0 → contributed i = true)
    {m : ℕ} (hm : m ≤ n) :
    Split n pts ((List.range m).foldl (protect contributed) s).1
        ((List.range m).foldl (protect contributed) s).2 ∧
      ∀ i, i < m → share i pts ≠ 0 →
        ((List.range m).foldl (protect contributed) s).2.getD i [] ≠ [] := by
  induction m with
  | zero => exact ⟨h, fun i hi => absurd hi (Nat.not_lt_zero i)⟩
  | succ m ih =>
    obtain ⟨hsplit, hkept⟩ := ih (by omega)
    rw [List.range_succ, List.foldl_append, List.foldl_cons, List.foldl_nil]
    refine ⟨hsplit.protect m, fun i hi hne => ?_⟩
    rcases Nat.lt_succ_iff_lt_or_eq.mp hi with hlt | rfl
    · exact protect_ne_nil (hkept i hlt hne)
    · exact protect_self hsplit (by omega) (hc i) hne

/-- What a round does to everything but its own bucket, and how many elements it hands back. -/
lemma protect_frame (i : ℕ) :
    (protect contributed s i).1.Sublist s.1 ∧
      (∀ j, j ≠ i → (protect contributed s i).2.getD j [] = s.2.getD j []) ∧
      (∀ t ∈ s.1, t.1 ≠ i → t ∈ (protect contributed s i).1) ∧
      ((∃ t ∈ s.1, t.1 = i) → (protect contributed s i).1.length +
        (if contributed i && (s.2.getD i []).isEmpty then 1 else 0) = s.1.length) := by
  unfold protect
  split_ifs with hgive
  · cases hl : removeLast i s.1 with
    | none =>
      refine ⟨List.Sublist.refl _, fun j _ => rfl, fun t ht _ => ht, ?_⟩
      rintro ⟨t, ht, hti⟩
      exact absurd hti (removeLast_eq_none hl t ht)
    | some r =>
      have hperm := removeLast_perm hl
      refine ⟨removeLast_sublist hl, fun j hj => ?_, fun t ht hti => ?_, fun _ => ?_⟩
      · rw [List.getD_eq_getElem?_getD, List.getElem?_modify]
        simp [Ne.symm hj]
      · rcases List.mem_cons.mp (hperm.mem_iff.mp ht) with rfl | ht
        · exact absurd rfl hti
        · exact ht
      · rw [hperm.length_eq, List.length_cons]
  · exact ⟨List.Sublist.refl _, fun j _ => rfl, fun t ht _ => ht, fun _ => rfl⟩

/-- The loop hands one element back to every bucket that contributed and has nothing left. -/
lemma protect_count {m : ℕ}
    (hacc : ∀ i < m, contributed i && (s.2.getD i []).isEmpty → ∃ t ∈ s.1, t.1 = i) :
    ((List.range m).foldl (protect contributed) s).1.Sublist s.1 ∧
      (∀ j, m ≤ j → ((List.range m).foldl (protect contributed) s).2.getD j [] = s.2.getD j []) ∧
      (∀ t ∈ s.1, m ≤ t.1 → t ∈ ((List.range m).foldl (protect contributed) s).1) ∧
      ((List.range m).foldl (protect contributed) s).1.length +
        ((Finset.range m).filter fun i => contributed i && (s.2.getD i []).isEmpty).card =
          s.1.length := by
  induction m with
  | zero => exact ⟨List.Sublist.refl _, fun j _ => rfl, fun t ht _ => ht, rfl⟩
  | succ m ih =>
    obtain ⟨hsub, hrem, hmem, hlen⟩ := ih fun i hi => hacc i (by omega)
    rw [List.range_succ, List.foldl_append, List.foldl_cons, List.foldl_nil]
    set s' := (List.range m).foldl (protect contributed) s
    obtain ⟨hsub', hrem', hmem', hlen'⟩ : (protect contributed s' m).1.Sublist s'.1 ∧ _ :=
      protect_frame m
    refine ⟨hsub'.trans hsub, fun j hj => ?_, fun t ht hj => ?_, ?_⟩
    · rw [hrem' j (by omega), hrem j (by omega)]
    · exact hmem' t (hmem t ht (by omega)) (by omega)
    · rw [Finset.range_add_one, Finset.filter_insert, ← hlen]
      rw [hrem m le_rfl] at hlen'
      by_cases hgive : (contributed m && (s.2.getD m []).isEmpty) = true
      · obtain ⟨t, ht, htm⟩ := hacc m (by omega) hgive
        have hback := hlen' ⟨t, hmem t ht htm.ge, htm⟩
        rw [if_pos hgive] at hback
        rw [if_pos hgive, Finset.card_insert_of_notMem (by simp)]
        omega
      · have hsame : protect contributed s' m = s' := by
          rw [protect, hrem m le_rfl, if_neg hgive]
        rw [if_neg hgive, hsame]

/-- Lists with equal shares have the same elements. -/
lemma perm_of_share [DecidableEq α] {l l' : List (ℕ × α)} (h : ∀ i, share i l = share i l') :
    l.Perm l' := by
  have hcount : ∀ (m : List (ℕ × α)) (t : ℕ × α), m.count t = (share t.1 m).count t.2 := by
    intro m t
    induction m with
    | nil => rfl
    | cons u m ih =>
      rw [share_cons, Multiset.count_add, List.count_cons, ih]
      obtain ⟨i, p⟩ := t
      obtain ⟨j, q⟩ := u
      by_cases hij : j = i
      · rw [if_pos hij, hij, Multiset.count_singleton, add_comm]
        by_cases hpq : q = p
        · simp [hpq]
        · simp [hpq, Ne.symm hpq]
      · simp [hij]
  rw [List.perm_iff_count]
  intro t
  rw [hcount, hcount, h]

end Protect

/-! ## Which elements are handed back -/

section Last

variable {β : Type*} {before : β → β → Prop} {f : β → ℕ × α} {T : List β}

/-- `t` is the last element of the list with its tag. -/
def LastTagged (before : β → β → Prop) (f : β → ℕ × α) (T : List β) (t : β) : Prop :=
  ∀ u ∈ T, (f u).1 = (f t).1 → ¬ before t u

instance [DecidableRel before] (t : β) : Decidable (LastTagged before f T t) :=
  inferInstanceAs (Decidable (∀ u ∈ T, (f u).1 = (f t).1 → ¬ before t u))

variable [DecidableRel before]

/-- Without its last element of a tag, a list in order is filtered. -/
lemma removeLast_map (hsorted : T.Pairwise before) (hasymm : ∀ a b, before a b → ¬ before b a)
    {i : ℕ} (hex : ∃ t ∈ T, (f t).1 = i) : ∃ p, removeLast i (T.map f) =
      some (p, (T.filter fun t => ¬ ((f t).1 = i ∧ LastTagged before f T t)).map f) := by
  induction T with
  | nil =>
    obtain ⟨t, ht, -⟩ := hex
    cases ht
  | cons t T ih =>
    obtain ⟨hbefore, hsorted⟩ := List.pairwise_cons.mp hsorted
    -- whether a later element is the last one does not depend on the first element
    have hrest : ∀ u ∈ T, (LastTagged before f (t :: T) u ↔ LastTagged before f T u) :=
      fun u hu => by
        unfold LastTagged
        rw [List.forall_mem_cons]
        exact and_iff_right fun _ => hasymm t u (hbefore u hu)
    have hfilter : (T.filter fun u => ¬ ((f u).1 = i ∧ LastTagged before f (t :: T) u)) =
        T.filter fun u => ¬ ((f u).1 = i ∧ LastTagged before f T u) :=
      List.filter_congr fun u hu => by simp only [hrest u hu]
    rw [List.map_cons, removeLast]
    by_cases hlater : ∃ u ∈ T, (f u).1 = i
    · obtain ⟨p, hp⟩ := ih hsorted hlater
      obtain ⟨u, hu, hui⟩ := hlater
      have hkeep : ¬ ((f t).1 = i ∧ LastTagged before f (t :: T) t) := fun ⟨hti, hlast⟩ =>
        hlast u (List.mem_cons_of_mem _ hu) (hui.trans hti.symm) (hbefore u hu)
      rw [hp, List.filter_cons, if_pos (decide_eq_true hkeep), hfilter]
      exact ⟨p, rfl⟩
    · have hnone : removeLast i (T.map f) = none := by
        cases hl : removeLast i (T.map f) with
        | none => rfl
        | some r =>
          have hmem := (removeLast_perm hl).mem_iff.mpr List.mem_cons_self
          obtain ⟨u, hu, heq⟩ := List.mem_map.mp hmem
          exact absurd ⟨u, hu, by rw [heq]⟩ hlater
      have hti : (f t).1 = i := by
        obtain ⟨u, hu, hui⟩ := hex
        rcases List.mem_cons.mp hu with rfl | hu
        · exact hui
        · exact absurd ⟨u, hu, hui⟩ hlater
      have hlast : LastTagged before f (t :: T) t := fun u hu hut => by
        rcases List.mem_cons.mp hu with rfl | hu
        · exact fun h => hasymm u u h h
        · exact absurd ⟨u, hu, hut.trans hti⟩ hlater
      have hall : (T.filter fun u => ¬ ((f u).1 = i ∧ LastTagged before f T u)) = T :=
        List.filter_eq_self.mpr fun u hu =>
          decide_eq_true fun h => hlater ⟨u, hu, h.1⟩
      rw [hnone, List.filter_cons_of_neg (by simpa using ⟨hti, hlast⟩), hfilter, hall]
      exact ⟨(f t).2, if_pos hti⟩

/-- Of a list in order, the loop hands back the last element of every bucket that contributed and
has nothing left. -/
lemma foldl_protect_map {s : List (ℕ × α) × List (List α)} {contributed : ℕ → Bool}
    (hs : s.1 = T.map f) (hsorted : T.Pairwise before)
    (hasymm : ∀ a b, before a b → ¬ before b a) {m : ℕ}
    (hacc : ∀ i < m, contributed i && (s.2.getD i []).isEmpty → ∃ t ∈ T, (f t).1 = i) :
    ((List.range m).foldl (protect contributed) s).1 =
      (T.filter fun t => ¬ (((f t).1 < m ∧ contributed (f t).1 && (s.2.getD (f t).1 []).isEmpty) ∧
        LastTagged before f T t)).map f := by
  induction m with
  | zero =>
    refine hs.trans (congrArg _ (List.filter_eq_self.mpr fun t _ => decide_eq_true ?_).symm)
    exact fun h => Nat.not_lt_zero _ h.1.1
  | succ m ih =>
    have hsome : ∀ i < m, contributed i && (s.2.getD i []).isEmpty → ∃ t ∈ s.1, t.1 = i := by
      intro i hi hgive
      obtain ⟨t, ht, hti⟩ := hacc i (by omega) hgive
      exact ⟨f t, hs ▸ List.mem_map_of_mem ht, hti⟩
    obtain ⟨-, hrem, -⟩ := protect_count hsome
    have hih := ih fun i hi => hacc i (by omega)
    rw [List.range_succ, List.foldl_append, List.foldl_cons, List.foldl_nil, protect,
      hrem m le_rfl]
    have hother : ∀ u, (f u).1 ≠ m → ((f u).1 < m + 1 ↔ (f u).1 < m) := fun u hu => by omega
    by_cases hgive : (contributed m && (s.2.getD m []).isEmpty) = true
    · set K := T.filter fun t => ¬ (((f t).1 < m ∧ contributed (f t).1 &&
        (s.2.getD (f t).1 []).isEmpty) ∧ LastTagged before f T t) with hK
      have hmem : ∀ u, (f u).1 = m → (u ∈ K ↔ u ∈ T) := fun u hu => by
        rw [hK, List.mem_filter, hu]
        simp
      have hlast : ∀ t, (f t).1 = m ∧ LastTagged before f K t ↔
          (f t).1 = m ∧ LastTagged before f T t := fun t => by
        refine and_congr_right fun ht => forall_congr' fun u => ?_
        rw [ht]
        exact ⟨fun h hu hum => h ((hmem u hum).mpr hu) hum,
          fun h hu hum => h ((hmem u hum).mp hu) hum⟩
      have hsub : K.Pairwise before := hsorted.sublist List.filter_sublist
      obtain ⟨t, ht, htm⟩ := hacc m (by omega) hgive
      obtain ⟨p, hp⟩ := removeLast_map hsub hasymm ⟨t, (hmem t htm).mpr ht, htm⟩
      rw [if_pos hgive, hih, hp]
      simp only [hlast]
      rw [hK, List.filter_filter]
      refine congrArg _ (List.filter_congr fun u hu => ?_)
      rw [← Bool.decide_and, decide_eq_decide]
      by_cases hum : (f u).1 = m
      · rw [hum]
        simp only [hgive, lt_irrefl, Nat.lt_succ_self, false_and, true_and, and_true, and_self,
          not_false_eq_true]
      · simp only [hum, hother u hum, false_and, not_false_eq_true, true_and]
    · rw [if_neg hgive, hih]
      refine congrArg _ (List.filter_congr fun u hu => ?_)
      rw [decide_eq_decide]
      by_cases hum : (f u).1 = m
      · rw [hum]
        simp only [hgive, Bool.false_eq_true, and_false, false_and]
      · simp only [hother u hum]

end Last

end TaggedSplit
