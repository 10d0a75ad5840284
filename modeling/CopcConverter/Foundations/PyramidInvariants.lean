import CopcConverter.Foundations.Pyramid

/-!
# What a bottom-up pyramid preserves

Two properties of the subtree below a node, and what a sampling step makes of them at its parent.

* `Conserved`: every stored point lies in the voxel of the node that stores it, every point of the
  subtree is stored exactly as often as it was given, and a voxel with at most `cap` points has
  nothing stored strictly below it.
* `Gapless`: no empty node lies strictly between two nodes with points.  A step passes it on from
  the children to the parent exactly when the step buries none of them (`NoBuriedChild`): when it
  leaves no child voxel empty that has points further down.
-/

namespace LevelTree

variable {κ P : Type*} [LevelTree κ] [DecidableEq P]

/-! ## Conservation, placement and depth -/

omit [LevelTree κ] in
/-- When only one of the gathered nodes holds a point, the point is gathered as often as it is
held there. -/
lemma count_gathered_eq {σ : κ → Multiset P} {L : List κ} {c : κ} {p : P} (hnodup : L.Nodup)
    (hc : c ∈ L) (hrest : ∀ c' ∈ L, c' ≠ c → p ∉ σ c') :
    (gathered σ L).count p = (σ c).count p := by
  induction L with
  | nil => cases hc
  | cons a L ih =>
    rw [gathered_cons, Multiset.count_add]
    rcases List.mem_cons.mp hc with rfl | hcL
    · have hnone : p ∉ gathered σ L := fun hp => by
        obtain ⟨c', hc', hp'⟩ := mem_gathered.mp hp
        refine hrest c' (List.mem_cons_of_mem _ hc') (fun he => ?_) hp'
        exact (List.nodup_cons.mp hnodup).1 (he ▸ hc')
      rw [Multiset.count_eq_zero_of_notMem hnone, add_zero]
    · have hne : a ≠ c := fun he => (List.nodup_cons.mp hnodup).1 (he ▸ hcL)
      rw [Multiset.count_eq_zero_of_notMem (hrest a List.mem_cons_self hne), zero_add]
      exact ih (List.nodup_cons.mp hnodup).2 hcL fun c' hc' =>
        hrest c' (List.mem_cons_of_mem _ hc')

/-- The points of the subtree of `q` are the points of `pts` inside `q`, each stored in a node that
contains it, and nothing is stored strictly below a voxel of at most `cap` points. -/
structure Conserved (A : Addressing P κ) (cap : ℕ) (pts : Multiset P) (q : κ)
    (σ : κ → Multiset P) : Prop where
  placed : ∀ k p, IsAncestor q k → p ∈ σ k → A.Inside p k
  balanced : ∀ p, A.Inside p q → ∃ N, ∀ n, N ≤ n →
    ∑ l ∈ Finset.Ico (level q) n, (σ (A.addr p l)).count p = pts.count p
  compact : ∀ v k, IsAncestor q v → IsProperAncestor v k → (inside A pts v).card ≤ cap → σ k = 0

namespace Conserved

variable {A : Addressing P κ} {cap : ℕ} {pts : Multiset P} {q : κ} {σ σ' : κ → Multiset P}

/-- `Conserved` only looks at the subtree. -/
lemma congr (heq : ∀ k, IsAncestor q k → σ' k = σ k) (h : Conserved A cap pts q σ) :
    Conserved A cap pts q σ' where
  placed k p hk hp := h.placed k p hk (heq k hk ▸ hp)
  balanced p hp := by
    obtain ⟨N, hN⟩ := h.balanced p hp
    refine ⟨N, fun n hn => ?_⟩
    rw [← hN n hn]
    refine Finset.sum_congr rfl fun l hl => ?_
    have hq : IsAncestor q (A.addr p l) := by
      have := A.isAncestor_addr p (Finset.mem_Ico.mp hl).1
      rwa [show A.addr p (level q) = q from hp] at this
    rw [heq _ hq]
  compact v k hv hk hcard := by
    rw [heq k (hv.trans hk.isAncestor), h.compact v k hv hk hcard]

/-- A leaf holding exactly its own points is conserved. -/
lemma leaf (hq : σ q = inside A pts q) (hbelow : ∀ k, IsProperAncestor q k → σ k = 0) :
    Conserved A cap pts q σ where
  placed k p hk hp := by
    rcases hk.eq_or_proper with rfl | hlt
    · exact (mem_inside.mp (hq ▸ hp)).2
    · simp [hbelow k hlt] at hp
  balanced p hp := by
    refine ⟨level q + 1, fun n hn => ?_⟩
    have hrest : ∑ l ∈ Finset.Ico (level q + 1) n, (σ (A.addr p l)).count p = 0 := by
      refine Finset.sum_eq_zero fun l hl => ?_
      have hlt : IsProperAncestor q (A.addr p l) := by
        have hl' := (Finset.mem_Ico.mp hl).1
        refine ⟨by rw [A.level_addr]; omega, ?_⟩
        rw [A.ancestorAt_addr p (by omega)]
        exact hp
      simp [hbelow _ hlt]
    rw [Finset.sum_eq_sum_Ico_succ_bot (by omega), hrest, add_zero,
      show A.addr p (level q) = q from hp, hq, count_inside hp]
  compact v k hv hk _ := hbelow k (hv.trans_proper hk)

/-- In a conserved subtree, the points stored at the root of the subtree are among its points. -/
lemma root_le (h : Conserved A cap pts q σ) : σ q ≤ inside A pts q := by
  refine Multiset.le_iff_count.mpr fun p => ?_
  by_cases hp : p ∈ σ q
  · have hin : A.Inside p q := h.placed q p (IsAncestor.refl q) hp
    obtain ⟨N, hN⟩ := h.balanced p hin
    have hsum := hN (max N (level q + 1)) (le_max_left _ _)
    rw [Finset.sum_eq_sum_Ico_succ_bot (by omega), show A.addr p (level q) = q from hin] at hsum
    rw [count_inside hin]
    omega
  · simp [Multiset.count_eq_zero_of_notMem hp]

/-- The gathered points of a parent are among the points of its voxel. -/
lemma gathered_le {L : List κ} (hnodup : L.Nodup) (hL : ∀ c ∈ L, IsChild q c)
    (h : ∀ c, IsChild q c → Conserved A cap pts c σ) : gathered σ L ≤ inside A pts q := by
  refine Multiset.le_iff_count.mpr fun p => ?_
  by_cases hp : p ∈ gathered σ L
  · obtain ⟨c, hcL, hpc⟩ := mem_gathered.mp hp
    have hin : A.Inside p c := (h c (hL c hcL)).placed c p (IsAncestor.refl c) hpc
    have honly : (gathered σ L).count p = (σ c).count p := by
      refine count_gathered_eq hnodup hcL fun c' hc' hne hp' => hne ?_
      have hin' := (h c' (hL c' hc')).placed c' p (IsAncestor.refl c') hp'
      rw [← hin'.eq_child (hL c' hc'), ← hin.eq_child (hL c hcL)]
    rw [honly, count_inside (hin.mono (hL c hcL).isProperAncestor.isAncestor)]
    have hle := Multiset.le_iff_count.mp (h c (hL c hcL)).root_le p
    rwa [count_inside hin] at hle
  · simp [Multiset.count_eq_zero_of_notMem hp]

/-- A sampling step moves the copies of a point of `q` between `q` and the one child that contains
the point. -/
lemma count_step {L : List κ} (hstep : SampleStep cap q L σ σ') (hq : σ q = 0)
    (hL : ∀ c, IsChild q c → c ∉ L → σ c = 0) (h : ∀ c, IsChild q c → Conserved A cap pts c σ)
    {p : P} (hp : A.Inside p q) :
    (σ' q).count p + (σ' (A.addr p (level q + 1))).count p =
      (σ (A.addr p (level q + 1))).count p := by
  have hc : IsChild q (A.addr p (level q + 1)) := hp.child
  have hother : ∀ c' ∈ L, c' ≠ A.addr p (level q + 1) → p ∉ σ c' := fun c' hc' hne hp' => by
    have hin' := (h c' (hstep.isChild c' hc')).placed c' p (IsAncestor.refl c') hp'
    exact hne (hin'.eq_child (hstep.isChild c' hc')).symm
  have hsum := congrArg (Multiset.count p) (hstep.conserves hq)
  rw [Multiset.count_add] at hsum
  by_cases hcL : A.addr p (level q + 1) ∈ L
  · have hother' : ∀ c' ∈ L, c' ≠ A.addr p (level q + 1) → p ∉ σ' c' := fun c' hc' hne hp' =>
      hother c' hc' hne (Multiset.mem_of_le (hstep.child_le (hstep.isChild c' hc')) hp')
    rwa [count_gathered_eq hstep.nodup hcL hother,
      count_gathered_eq hstep.nodup hcL hother'] at hsum
  · have hzero := hL _ hc hcL
    have hnone : p ∉ gathered σ L := fun hp' => by
      obtain ⟨c', hc', hpc'⟩ := mem_gathered.mp hp'
      refine hother c' hc' (fun he => hcL (he ▸ hc')) hpc'
    rw [Multiset.count_eq_zero_of_notMem hnone] at hsum
    rw [hstep.kept _ hc hcL, hzero]
    simp only [Multiset.count_zero]
    omega

/-- The parent of a sampling step inherits conservation from its children. -/
lemma step {L : List κ} (hstep : SampleStep cap q L σ σ') (hq : σ q = 0)
    (hL : ∀ c, IsChild q c → c ∉ L → σ c = 0)
    (hdeep : ∀ k, IsProperAncestor q k → ¬ IsChild q k → σ' k = σ k)
    (h : ∀ c, IsChild q c → Conserved A cap pts c σ) : Conserved A cap pts q σ' where
  placed k p hk hp := by
    rcases hk.eq_or_proper with rfl | hlt
    · obtain ⟨c, hcL, hpc⟩ := mem_gathered.mp (hstep.mem_gathered_of_mem hq hp)
      have hc := hstep.isChild c hcL
      exact ((h c hc).placed c p (IsAncestor.refl c) hpc).mono hc.isProperAncestor.isAncestor
    · obtain ⟨c, hc, hck⟩ := hlt.exists_child
      by_cases hkc : IsChild q k
      · obtain rfl := hc.eq_of_isAncestor hkc hck
        exact (h c hc).placed c p hck (Multiset.mem_of_le (hstep.child_le hc) hp)
      · exact (h c hc).placed k p hck (hdeep k hlt hkc ▸ hp)
  balanced p hp := by
    have hc : IsChild q (A.addr p (level q + 1)) := hp.child
    obtain ⟨N, hN⟩ := (h _ hc).balanced p (A.inside_addr p _)
    refine ⟨max N (level q + 2), fun n hn => ?_⟩
    have hN' := hN n (le_trans (le_max_left _ _) hn)
    have hn2 : level q + 2 ≤ n := le_trans (le_max_right _ _) hn
    have hsame : ∀ l ∈ Finset.Ico (level q + 1 + 1) n,
        (σ' (A.addr p l)).count p = (σ (A.addr p l)).count p := fun l hl => by
      have hl' := (Finset.mem_Ico.mp hl).1
      have hlt : IsProperAncestor q (A.addr p l) := by
        refine ⟨by rw [A.level_addr]; omega, ?_⟩
        rw [A.ancestorAt_addr p (by omega)]
        exact hp
      rw [hdeep _ hlt fun hch => by have := hch.1; rw [A.level_addr] at this; omega]
    rw [A.level_addr, Finset.sum_eq_sum_Ico_succ_bot (by omega)] at hN'
    rw [Finset.sum_eq_sum_Ico_succ_bot (by omega), Finset.sum_eq_sum_Ico_succ_bot (by omega),
      Finset.sum_congr rfl hsame, ← hN', ← count_step hstep hq hL h hp,
      show A.addr p (level q) = q from hp]
    exact (Nat.add_assoc _ _ _).symm
  compact v k hv hk hcard := by
    rcases hv.eq_or_proper with rfl | hqv
    · -- everything below the children is empty already, and the children are folded into `q`
      have hbelow : ∀ c, IsChild q c → ∀ k, IsProperAncestor c k → σ k = 0 := fun c hc k' hk' =>
        (h c hc).compact c k' (IsAncestor.refl c) hk' <|
          (Multiset.card_le_card (inside_le_of_isAncestor hc.isProperAncestor.isAncestor)).trans
            hcard
      obtain ⟨c, hc, hck⟩ := hk.exists_child
      rcases hck.eq_or_proper with rfl | hlt
      · by_cases h0 : gathered σ L = 0
        · rw [(hstep.eq_of_gathered_eq_zero h0).2 c hc]
          by_cases hcL : c ∈ L
          · exact gathered_eq_zero.mp h0 c hcL
          · exact hL c hc hcL
        · have hle := Multiset.card_le_card (gathered_le hstep.nodup hstep.isChild h)
          by_cases hcL : c ∈ L
          · exact (hstep.collapse h0 (hle.trans hcard)).2 c hcL
          · rw [hstep.kept c hc hcL, hL c hc hcL]
      · have hnc : ¬ IsChild q k := fun hch => by
          have h1 := hch.1; have h2 := hlt.1; have h3 := hc.1; omega
        rw [hdeep k hk hnc, hbelow c hc k hlt]
    · obtain ⟨c, hc, hcv⟩ := hqv.exists_child
      have hnc : ¬ IsChild q k := fun hch => by
        have h1 := hch.1; have h2 := hcv.1; have h3 := hc.1; have h4 := hk.1; omega
      rw [hdeep k (hv.trans_proper hk) hnc, (h c hc).compact v k hcv hk hcard]

/-- Conservation is inherited by every step, whatever the rules of the walk. -/
def invariant (A : Addressing P κ) (cap : ℕ) (pts : Multiset P)
    (HandsUp : κ → List κ → (κ → Multiset P) → Multiset P → Prop) (W : WalkRules κ) :
    PyramidInvariant A cap pts HandsUp W where
  Holds := Conserved A cap pts
  congr := congr
  leaf _ := leaf
  step hstep hq hL hdeep _ _ h := step hstep hq hL hdeep h

/-- Every point stored in a conserved subtree is one of the points of its voxel. -/
lemma mem_inside_of_mem (h : Conserved A cap pts q σ) {k : κ} (hk : IsAncestor q k) {p : P}
    (hp : p ∈ σ k) : p ∈ inside A pts k := by
  have hin : A.Inside p k := h.placed k p hk hp
  obtain ⟨N, hN⟩ := h.balanced p (hin.mono hk)
  refine mem_inside.mpr ⟨Multiset.count_pos.mp ?_, hin⟩
  have hlevel : level k ∈ Finset.Ico (level q) (max N (level k + 1)) :=
    Finset.mem_Ico.mpr ⟨hk.1, lt_of_lt_of_le (Nat.lt_succ_self _) (le_max_right _ _)⟩
  have hle := Finset.single_le_sum (f := fun l => (σ (A.addr p l)).count p)
    (fun _ _ => Nat.zero_le _) hlevel
  rw [hN _ (le_max_left _ _), show A.addr p (level k) = k from hin] at hle
  exact (Multiset.count_pos.mpr hp).trans_le hle

/-- Nothing is stored below a voxel without points. -/
lemma eq_zero_of_inside (h : Conserved A cap pts q σ) (h0 : inside A pts q = 0) {k : κ}
    (hk : IsAncestor q k) : σ k = 0 := by
  refine Multiset.eq_zero_of_forall_notMem fun p hp => ?_
  have hin := Multiset.mem_of_le (inside_le_of_isAncestor hk) (h.mem_inside_of_mem hk hp)
  rw [h0] at hin
  exact Multiset.notMem_zero p hin

/-- A node with nothing stored below it stores all the points of its voxel. -/
lemma eq_inside (h : Conserved A cap pts q σ) (hbelow : ∀ k, IsProperAncestor q k → σ k = 0) :
    σ q = inside A pts q := by
  refine Multiset.ext.mpr fun p => ?_
  by_cases hp : A.Inside p q
  · obtain ⟨N, hN⟩ := h.balanced p hp
    have hrest : ∑ l ∈ Finset.Ico (level q + 1) (max N (level q + 1)),
        (σ (A.addr p l)).count p = 0 := by
      refine Finset.sum_eq_zero fun l hl => ?_
      have hlt : IsProperAncestor q (A.addr p l) := by
        have hl' := (Finset.mem_Ico.mp hl).1
        refine ⟨by rw [A.level_addr]; omega, ?_⟩
        rw [A.ancestorAt_addr p (by omega)]
        exact hp
      simp [hbelow _ hlt]
    have hsum := hN _ (le_max_left N (level q + 1))
    rw [Finset.sum_eq_sum_Ico_succ_bot (lt_of_lt_of_le (Nat.lt_succ_self _) (le_max_right _ _)),
      hrest, add_zero, show A.addr p (level q) = q from hp] at hsum
    rw [hsum, count_inside hp]
  · have hσ : p ∉ σ q := fun hmem => hp (h.placed q p (IsAncestor.refl q) hmem)
    have hin : p ∉ inside A pts q := fun hmem => hp (mem_inside.mp hmem).2
    rw [Multiset.count_eq_zero_of_notMem hσ, Multiset.count_eq_zero_of_notMem hin]

/-- In a finished pyramid, the nodes of any list that covers the subtree hold exactly the points
of `q`. -/
lemma sum_eq_inside (h : Conserved A cap pts q σ) [DecidableEq κ] {keys : Finset κ}
    (hunder : ∀ k ∈ keys, IsAncestor q k) (hcover : ∀ k, IsAncestor q k → σ k ≠ 0 → k ∈ keys) :
    ∑ k ∈ keys, σ k = inside A pts q := by
  refine Multiset.ext.mpr fun p => ?_
  rw [Multiset.count_sum']
  by_cases hp : A.Inside p q
  · obtain ⟨N, hN⟩ := h.balanced p hp
    have hdepth : ∀ k ∈ keys, level k < max N (keys.sup level + 1) := fun k hk =>
      lt_of_lt_of_le (Nat.lt_succ_of_le (Finset.le_sup (f := level) hk)) (le_max_right _ _)
    rw [count_inside hp, ← hN _ (le_max_left N (keys.sup level + 1))]
    symm
    -- a point is stored along its own path only
    refine Finset.sum_bij_ne_zero (fun l _ _ => A.addr p l) ?_ ?_ ?_ ?_
    · intro l hl hne
      refine hcover _ ?_ fun h0 => hne (by simp [h0])
      have := A.isAncestor_addr p (Finset.mem_Ico.mp hl).1
      rwa [show A.addr p (level q) = q from hp] at this
    · intro l _ _ l' _ _ he
      simpa using congrArg level he
    · intro k hk hne
      have hpk : p ∈ σ k := Multiset.count_pos.mp (Nat.pos_of_ne_zero hne)
      have hin : A.addr p (level k) = k := h.placed k p (hunder k hk) hpk
      refine ⟨level k, Finset.mem_Ico.mpr ⟨(hunder k hk).1, hdepth k hk⟩, ?_, hin⟩
      rwa [hin]
    · intro l _ _
      rfl
  · have hnone : p ∉ inside A pts q := fun hp' => hp (mem_inside.mp hp').2
    rw [Multiset.count_eq_zero_of_notMem hnone]
    refine Finset.sum_eq_zero fun k hk => Multiset.count_eq_zero_of_notMem fun hpk => hp ?_
    exact (h.placed k p (hunder k hk) hpk).mono (hunder k hk)

end Conserved

/-! ## Gaps -/

omit [DecidableEq P]

/-- No empty node lies strictly between two nodes with points in the subtree of `q`. -/
def Gapless (q : κ) (σ : κ → Multiset P) : Prop :=
  ∀ a b k, IsAncestor q a → IsProperAncestor a b → IsProperAncestor b k →
    σ a ≠ 0 → σ k ≠ 0 → σ b ≠ 0

/-- In the state before a step at `q`: no child voxel that the step leaves empty (any child when
the gathered points collapse, an already empty one when they are sampled) has points below it. -/
def NoBuriedChild (cap : ℕ) (q : κ) (L : List κ) (σ : κ → Multiset P) : Prop :=
  ∀ c k, IsChild q c → IsProperAncestor c k → (gathered σ L).card ≤ cap ∨ σ c = 0 → σ k = 0

namespace Gapless

variable {cap : ℕ} {q : κ} {σ σ' : κ → Multiset P}

lemma congr (heq : ∀ k, IsAncestor q k → σ' k = σ k) (h : Gapless q σ) : Gapless q σ' := by
  intro a b k ha hab hbk hne hne'
  have hb := ha.trans_proper hab
  rw [heq b hb.isAncestor]
  rw [heq a ha] at hne
  rw [heq k (hb.trans_isAncestor hbk.isAncestor).isAncestor] at hne'
  exact h a b k ha hab hbk hne hne'

lemma leaf (hbelow : ∀ k, IsProperAncestor q k → σ k = 0) : Gapless q σ :=
  fun _ _ k ha hab hbk _ hne' =>
    absurd (hbelow k ((ha.trans_proper hab).trans_isAncestor hbk.isAncestor)) hne'

/-- The parent of a sampling step is gapless when its children are and none of them is left empty
above points of its own. -/
lemma step {L : List κ} (hstep : SampleStep cap q L σ σ') (hL : ∀ c, IsChild q c → c ∉ L → σ c = 0)
    (hdeep : ∀ k, IsProperAncestor q k → ¬ IsChild q k → σ' k = σ k)
    (hcond : σ' q ≠ 0 → NoBuriedChild cap q L σ) (h : ∀ c, IsChild q c → Gapless c σ) :
    Gapless q σ' := by
  intro a b k ha hab hbk hne hne'
  obtain ⟨c, hc, hcb⟩ := (ha.trans_proper hab).exists_child
  have hdeeper : ∀ j, IsProperAncestor c j → σ' j = σ j := fun j hj =>
    hdeep j (hc.isProperAncestor.trans_isAncestor hj.isAncestor) fun hch => by
      have h1 := hch.1; have h2 := hj.1; have h3 := hc.1; omega
  have hck : IsProperAncestor c k := hcb.trans_proper hbk
  rw [hdeeper k hck] at hne'
  rcases ha.eq_or_proper with rfl | hqa
  · -- the upper end is the parent itself: the child above `b` must have kept points
    have hnot := fun hempty => hne' (hcond hne c k hc hck hempty)
    have hcard : cap < (gathered σ L).card := by
      by_contra hle
      exact hnot (Or.inl (by omega))
    have hc0 : σ c ≠ 0 := fun h0 => hnot (Or.inr h0)
    have hcL : c ∈ L := by
      by_contra hcL
      exact hc0 (hL c hc hcL)
    rcases hcb.eq_or_proper with rfl | hlt
    · exact ((hstep.sample hcard).1 c hcL).2 hc0
    · rw [hdeeper b hlt]
      exact h c hc c b k (IsAncestor.refl c) hlt hbk hc0 hne'
  · have hca : IsAncestor c a := by
      apply hcb.of_level_le hab.isAncestor
      have h1 := hqa.1; have h2 := hc.1; omega
    have hcb' : IsProperAncestor c b := hca.trans_proper hab
    have hne0 : σ a ≠ 0 := by
      rcases hca.eq_or_proper with rfl | hlt
      · intro h0
        exact hne (Multiset.le_zero.mp (h0 ▸ hstep.child_le hc))
      · rwa [← hdeeper a hlt]
    rw [hdeeper b hcb']
    exact h c hc a b k hca hab hbk hne0 hne'

/-- The subtree of any node of a gapless subtree is gapless. -/
lemma mono {a : κ} (ha : IsAncestor q a) (h : Gapless q σ) : Gapless a σ :=
  fun a' b k ha' hab hbk hne hne' => h a' b k (ha.trans ha') hab hbk hne hne'

/-- No step closes a gap: what is gapless after a step had gapless children before it, and the step
buried none of them if it handed points to the parent. -/
lemma back {L : List κ} (hstep : SampleStep cap q L σ σ') (hq : σ q = 0)
    (hL : ∀ c, IsChild q c → c ∉ L → σ c = 0)
    (hdeep : ∀ k, IsProperAncestor q k → ¬ IsChild q k → σ' k = σ k) (h : Gapless q σ') :
    (∀ c, IsChild q c → Gapless c σ) ∧ (σ' q ≠ 0 → NoBuriedChild cap q L σ) := by
  have hdeeper : ∀ c j, IsChild q c → IsProperAncestor c j → σ' j = σ j := fun c j hc hj =>
    hdeep j (hc.isProperAncestor.trans_isAncestor hj.isAncestor) fun hch => by
      have h1 := hch.1; have h2 := hj.1; have h3 := hc.1; omega
  have hidle : σ' q ≠ 0 → gathered σ L ≠ 0 := fun hne h0 => hne ((hstep.idle h0).1.trans hq)
  refine ⟨fun c hc a b k ha hab hbk hne hne' hb => ?_, fun hne c k hc hck hempty => ?_⟩
  · have hcb : IsProperAncestor c b := ha.trans_proper hab
    have hck : IsProperAncestor c k := hcb.trans_isAncestor hbk.isAncestor
    rw [← hdeeper c b hc hcb] at hb
    rw [← hdeeper c k hc hck] at hne'
    have hqc : IsAncestor q c := hc.isProperAncestor.isAncestor
    by_cases hca : σ' a = 0
    · -- the upper end has lost its points: it is the child, and they moved up to the parent
      obtain rfl : c = a := by
        rcases ha.eq_or_proper with he | hlt
        · exact he
        · exact absurd ((hdeeper c a hc hlt).symm.trans hca) hne
      have hcL : c ∈ L := by
        by_contra hcL
        exact hne (hL c hc hcL)
      have h0 : gathered σ L ≠ 0 := fun h0 => hne (gathered_eq_zero.mp h0 c hcL)
      have hle : (gathered σ L).card ≤ cap := by
        by_contra hlt
        exact ((hstep.sample (Nat.lt_of_not_le hlt)).1 c hcL).2 hne hca
      have hq' : σ' q ≠ 0 := by
        rw [(hstep.collapse h0 hle).1]
        exact h0
      exact h q b k (IsAncestor.refl q) (hqc.trans_proper hcb) hbk hq' hne' hb
    · exact h a b k (hqc.trans ha) hab hbk hca hne' hb
  · by_contra hk
    rw [← hdeeper c k hc hck] at hk
    have hc0 : σ' c = 0 := by
      rcases hempty with hle | h0
      · by_cases hcL : c ∈ L
        · exact (hstep.collapse (hidle hne) hle).2 c hcL
        · rw [hstep.kept c hc hcL, hL c hc hcL]
      · exact Multiset.le_zero.mp (h0 ▸ hstep.child_le hc)
    exact h q c k (IsAncestor.refl q) hc.isProperAncestor hck hne hk hc0

end Gapless

end LevelTree
