import CopcConverter.Foundations.LevelTree

/-!
# Bottom-up pyramids over a levelled tree

A pyramid stores, at every node of a levelled tree, a multiset of points.  It is built from below:
one pass over a level gathers the children of every parent at that level and lets the parent take
some of the gathered points (`SampleStep`).  A step with few points *collapses* the children into
the parent; a step with many points leaves every contributing child at least one of its points.

`PyramidInvariant` is what it takes for a property of subtrees to survive such steps, and
`Frontier` is the state of a walk that has come up to a level from an antichain of roots whose
subtrees have the property already.  `Frontier.start` and `Frontier.next` are the two rules; a
walk over any number of levels is a chain of `next`.  What is known of a particular walk beyond its
steps being sampling steps is given by a relation `HandsUp`, what a step may hand to the parent,
and by `WalkRules`: at which nodes the walk may find a leaf and at which it may take a step.
-/

namespace LevelTree

variable {κ P : Type*}

/-! ## One sampling step -/

/-- The points held by the nodes of `L` together. -/
def gathered (σ : κ → Multiset P) (L : List κ) : Multiset P := (L.map σ).sum

@[simp] lemma gathered_nil (σ : κ → Multiset P) : gathered σ [] = 0 := rfl

@[simp] lemma gathered_cons (σ : κ → Multiset P) (c : κ) (L : List κ) :
    gathered σ (c :: L) = σ c + gathered σ L := by
  simp [gathered]

lemma mem_gathered {σ : κ → Multiset P} {L : List κ} {p : P} :
    p ∈ gathered σ L ↔ ∃ c ∈ L, p ∈ σ c := by
  induction L with
  | nil => simp
  | cons c L ih => simp [ih]

lemma gathered_eq_zero {σ : κ → Multiset P} {L : List κ} :
    gathered σ L = 0 ↔ ∀ c ∈ L, σ c = 0 := by
  induction L with
  | nil => simp
  | cons c L ih => simp [ih]

/-- The order in which the nodes are gathered does not matter. -/
lemma gathered_perm {L L' : List κ} (σ : κ → Multiset P) (h : L.Perm L') :
    gathered σ L = gathered σ L' := (h.map σ).sum_eq

variable [LevelTree κ]

/-- One step at the parent `q`, which gathers its children `L`: nothing happens without points, at
most `cap` points all move into the parent, and more than `cap` points are sampled. -/
structure SampleStep (cap : ℕ) (q : κ) (L : List κ) (σ σ' : κ → Multiset P) : Prop where
  isChild : ∀ c ∈ L, IsChild q c
  nodup : L.Nodup
  kept : ∀ c, IsChild q c → c ∉ L → σ' c = σ c
  idle : gathered σ L = 0 → σ' q = σ q ∧ ∀ c ∈ L, σ' c = σ c
  collapse : gathered σ L ≠ 0 → (gathered σ L).card ≤ cap →
    σ' q = gathered σ L ∧ ∀ c ∈ L, σ' c = 0
  sample : cap < (gathered σ L).card →
    (∀ c ∈ L, σ' c ≤ σ c ∧ (σ c ≠ 0 → σ' c ≠ 0)) ∧
      ∃ taken : Multiset P, taken + gathered σ' L = gathered σ L ∧
        (taken = 0 → σ' q = σ q) ∧ (taken ≠ 0 → σ' q = taken)

namespace SampleStep

variable {cap : ℕ} {q : κ} {L : List κ} {σ σ' : κ → Multiset P}

/-- A step takes points from a child and never adds any. -/
lemma child_le (h : SampleStep cap q L σ σ') {c : κ} (hc : IsChild q c) : σ' c ≤ σ c := by
  by_cases hL : c ∈ L
  · by_cases h0 : gathered σ L = 0
    · exact ((h.idle h0).2 c hL).le
    · rcases Nat.lt_or_ge cap (gathered σ L).card with hlt | hle
      · exact ((h.sample hlt).1 c hL).1
      · rw [(h.collapse h0 hle).2 c hL]
        exact Multiset.zero_le _
  · exact (h.kept c hc hL).le

/-- A step at an empty parent moves points between the parent and the children it gathered, and
loses none. -/
lemma conserves (h : SampleStep cap q L σ σ') (hq : σ q = 0) :
    σ' q + gathered σ' L = gathered σ L := by
  by_cases h0 : gathered σ L = 0
  · have hkeep : gathered σ' L = 0 := by
      rw [gathered_eq_zero] at h0 ⊢
      intro c hc
      rw [(h.idle (gathered_eq_zero.mpr h0)).2 c hc, h0 c hc]
    rw [(h.idle h0).1, hq, hkeep, h0, add_zero]
  · rcases Nat.lt_or_ge cap (gathered σ L).card with hlt | hle
    · obtain ⟨-, taken, hsum, hnone, hsome⟩ := h.sample hlt
      by_cases ht : taken = 0
      · rw [hnone ht, hq, ← ht, hsum]
      · rw [hsome ht, hsum]
    · obtain ⟨hq', hc⟩ := h.collapse h0 hle
      rw [hq', gathered_eq_zero.mpr hc, add_zero]

/-- The points a parent ends up with come from the children it gathered. -/
lemma mem_gathered_of_mem (h : SampleStep cap q L σ σ') (hq : σ q = 0) {p : P} (hp : p ∈ σ' q) :
    p ∈ gathered σ L := by
  rw [← h.conserves hq]
  exact Multiset.mem_add.mpr (Or.inl hp)

/-- A step that gathers nothing leaves the parent and every child alone. -/
lemma eq_of_gathered_eq_zero (h : SampleStep cap q L σ σ') (h0 : gathered σ L = 0) :
    σ' q = σ q ∧ ∀ c, IsChild q c → σ' c = σ c := by
  refine ⟨(h.idle h0).1, fun c hc => ?_⟩
  by_cases hL : c ∈ L
  · exact (h.idle h0).2 c hL
  · exact h.kept c hc hL

end SampleStep

/-! ## Properties of subtrees that survive the steps -/

/-- The nodes that may be leaves of a walk, and the nodes that may be the parent of a step. -/
structure WalkRules (κ : Type*) where
  Leaf : κ → Prop
  Inner : κ → Prop

/-- Below `top` the walk may find a leaf where at most `cap` points are, or at a deep node, and may
take a step at a node with points that is not deep. -/
structure WalkRules.Allow (W : WalkRules κ) (A : Addressing P κ) (cap : ℕ) (pts : Multiset P)
    (top : κ) (Deep : κ → Prop) : Prop where
  leaf : ∀ k, IsAncestor top k → (inside A pts k).card ≤ cap ∨ Deep k → W.Leaf k
  inner : ∀ k, IsAncestor top k → inside A pts k ≠ 0 → ¬ Deep k → W.Inner k

/-- The rules of a walk of which nothing is known. -/
def WalkRules.free : WalkRules κ := ⟨fun _ => True, fun _ => True⟩

lemma WalkRules.free_allow (A : Addressing P κ) (cap : ℕ) (pts : Multiset P) (top : κ)
    (Deep : κ → Prop) : WalkRules.free.Allow A cap pts top Deep :=
  ⟨fun _ _ _ => trivial, fun _ _ _ _ => trivial⟩

/-- What the rules allow below a node, they allow below every node of its subtree. -/
lemma WalkRules.Allow.mono {W : WalkRules κ} {A : Addressing P κ} {cap : ℕ} {pts : Multiset P}
    {top sub : κ} {Deep Deep' : κ → Prop} (h : W.Allow A cap pts top Deep)
    (hsub : IsAncestor top sub) (hsame : ∀ k, IsAncestor sub k → (Deep' k ↔ Deep k)) :
    W.Allow A cap pts sub Deep' where
  leaf k hk hleaf := h.leaf k (hsub.trans hk) (hleaf.imp_right (hsame k hk).mp)
  inner k hk hne hnot := h.inner k (hsub.trans hk) hne fun hd => hnot ((hsame k hk).mpr hd)

/-- A property of the subtree below a node that holds of a leaf holding exactly its own points, is
unaffected by changes elsewhere, and is inherited by the parent of a sampling step from the
parent's children, as long as the leaves and the steps keep to the rules of the walk; `HandsUp` says
which points a step at a node may hand up from the children it has gathered. -/
structure PyramidInvariant (A : Addressing P κ) (cap : ℕ) (pts : Multiset P)
    (HandsUp : κ → List κ → (κ → Multiset P) → Multiset P → Prop) (W : WalkRules κ) where
  /-- The property of the subtree rooted at a node. -/
  Holds : κ → (κ → Multiset P) → Prop
  congr : ∀ {q σ σ'}, (∀ k, IsAncestor q k → σ' k = σ k) → Holds q σ → Holds q σ'
  leaf : ∀ {q σ}, (inside A pts q ≠ 0 → W.Leaf q) → σ q = inside A pts q →
    (∀ k, IsProperAncestor q k → σ k = 0) → Holds q σ
  step : ∀ {q L σ σ'}, SampleStep cap q L σ σ' → σ q = 0 →
    (∀ c, IsChild q c → c ∉ L → σ c = 0) →
    (∀ k, IsProperAncestor q k → ¬ IsChild q k → σ' k = σ k) →
    (inside A pts q ≠ 0 → W.Inner q) → (L ≠ [] → HandsUp q L σ (σ' q)) →
    (∀ c, IsChild q c → Holds c σ) → Holds q σ'

/-! ## Walking up from an antichain of roots -/

variable {A : Addressing P κ} {cap : ℕ} {pts : Multiset P}
  {HandsUp : κ → List κ → (κ → Multiset P) → Multiset P → Prop} {W : WalkRules κ}

/-- One pass over level `d`: every parent at level `d` gathers exactly its children in `T`, and an
empty one comes to hold what they hand up. -/
structure LevelPass (HandsUp : κ → List κ → (κ → Multiset P) → Multiset P → Prop) (cap d : ℕ)
    (T : κ → Prop) (σ σ' : κ → Multiset P) : Prop where
  sampled : ∀ q, level q = d → ∃ L, (∀ c, c ∈ L ↔ IsChild q c ∧ T c) ∧
    SampleStep cap q L σ σ' ∧ (L ≠ [] → σ q = 0 → HandsUp q L σ (σ' q))
  other : ∀ k, level k ≠ d → level k ≠ d + 1 → σ' k = σ k

/-- A property of single nodes that parts inherit survives a pass if the parents that change have
it. -/
lemma LevelPass.nodewise {d : ℕ} {T : κ → Prop} {σ σ' : κ → Multiset P}
    {Φ : κ → Multiset P → Prop} (hmono : ∀ k m m', m' ≤ m → Φ k m → Φ k m')
    (h : LevelPass HandsUp cap d T σ σ') (hσ : ∀ k, Φ k (σ k))
    (hparent : ∀ q, level q = d → σ' q ≠ σ q → Φ q (σ' q)) (k : κ) : Φ k (σ' k) := by
  by_cases hsame : σ' k = σ k
  · rw [hsame]
    exact hσ k
  · by_cases hk : level k = d
    · exact hparent k hk hsame
    · have hk1 : level k = d + 1 := by
        by_contra hk1
        exact hsame (h.other k hk hk1)
      obtain ⟨L, -, hstep, -⟩ := h.sampled (up k) (by rw [level_up]; omega)
      exact hmono k _ _ (hstep.child_le (isChild_up (by omega))) (hσ k)

/-- The start of a walk below `top`: pairwise unrelated roots `R` that between them contain every
point of `top`, each with a finished subtree, and no points anywhere else; above the roots the walk
may take steps. -/
structure Roots (I : PyramidInvariant A cap pts HandsUp W) (top : κ) (R : κ → Prop)
    (σ : κ → Multiset P) : Prop where
  below : ∀ r, R r → IsAncestor top r
  antichain : ∀ r s, R r → R s → IsAncestor r s → r = s
  covers : ∀ p ∈ pts, A.Inside p top → ∃ r, R r ∧ A.Inside p r
  supported : ∀ k, IsAncestor top k → σ k ≠ 0 → ∃ r, R r ∧ IsAncestor r k
  holds : ∀ r, R r → I.Holds r σ
  inner : ∀ q, IsAncestor top q → inside A pts q ≠ 0 → (∀ r, R r → ¬ IsAncestor r q) → W.Inner q

/-- `q` is not strictly below a root. -/
def Open (R : κ → Prop) (q : κ) : Prop := ∀ r, R r → IsAncestor r q → r = q

/-- A walk from the roots `R` that has finished every subtree rooted at level `d`.  `T` marks the
nodes at level `d` that the next pass will gather. -/
structure Frontier (I : PyramidInvariant A cap pts HandsUp W) (top : κ) (R : κ → Prop)
    (σ₀ : κ → Multiset P) (d : ℕ) (T : κ → Prop) (σ : κ → Multiset P) : Prop where
  built : ∀ q, IsAncestor top q → level q = d → Open R q → I.Holds q σ
  shallow : ∀ k, level k < d → σ k = σ₀ k
  untouched : ∀ r k, R r → level r ≤ d → IsAncestor r k → σ k = σ₀ k
  tracked_open : ∀ c, T c → level c = d → IsAncestor top c ∧ Open R c
  untracked : ∀ c, IsAncestor top c → level c = d → Open R c → ¬ T c → σ c = 0

namespace Roots

variable {I : PyramidInvariant A cap pts HandsUp W} {top : κ} {R : κ → Prop} {σ : κ → Multiset P}

/-- Nothing is stored at a node that is neither a root nor below one. -/
lemma eq_zero_of_open (h : Roots I top R σ) {q : κ} (htop : IsAncestor top q) (hopen : Open R q)
    (hR : ¬ R q) : σ q = 0 := by
  by_contra hne
  obtain ⟨r, hr, hrq⟩ := h.supported q htop hne
  exact hR (hopen r hr hrq ▸ hr)

/-- A node at or below the level of every root, not below any of them, has an empty subtree. -/
lemma empty_of_open (h : Roots I top R σ) {q : κ} (htop : IsAncestor top q) (hopen : Open R q)
    (hR : ¬ R q) (hdeep : ∀ r, R r → level r ≤ level q) :
    inside A pts q = 0 ∧ ∀ k, IsAncestor q k → σ k = 0 := by
  constructor
  · refine Multiset.eq_zero_of_forall_notMem fun p hp => ?_
    obtain ⟨hp, hpq⟩ := mem_inside.mp hp
    obtain ⟨r, hr, hpr⟩ := h.covers p hp (hpq.mono htop)
    exact hR (hopen r hr (hpr.isAncestor hpq (hdeep r hr)) ▸ hr)
  · intro k hk
    by_contra hne
    obtain ⟨r, hr, hrk⟩ := h.supported k (htop.trans hk) hne
    exact hR (hopen r hr (hrk.of_level_le hk (hdeep r hr)) ▸ hr)

end Roots

namespace Frontier

variable {I : PyramidInvariant A cap pts HandsUp W} {top : κ} {R : κ → Prop}
  {σ₀ σ σ' : κ → Multiset P} {d : ℕ} {T T' : κ → Prop}

/-- A walk may start at any level that is at least as deep as every root. -/
lemma start (h : Roots I top R σ₀) (hdeep : ∀ r, R r → level r ≤ d)
    (hT : ∀ c, T c → level c = d → R c) (hR : ∀ c, R c → level c = d → ¬ T c → σ₀ c = 0) :
    Frontier I top R σ₀ d T σ₀ where
  built q htop hq hopen := by
    by_cases hRq : R q
    · exact h.holds q hRq
    · obtain ⟨hin, hempty⟩ := h.empty_of_open htop hopen hRq (hq ▸ hdeep)
      refine I.leaf (fun hne => absurd hin hne) ?_ fun k hk => hempty k hk.isAncestor
      rw [hin, hempty q (IsAncestor.refl q)]
  shallow _ _ := rfl
  untouched _ _ _ _ _ := rfl
  tracked_open c hc hd := by
    have hRc := hT c hc hd
    exact ⟨h.below c hRc, fun r hr hrc => h.antichain r c hr hRc hrc⟩
  untracked c htop hd hopen hnT := by
    by_cases hRc : R c
    · exact hR c hRc hd hnT
    · exact h.eq_zero_of_open htop hopen hRc

/-- The parent of an open node is open. -/
lemma open_of_child {q c : κ} (hc : IsChild q c) (hopen : Open R c) : Open R q := by
  intro r hr hrq
  have hrc : r = c := hopen r hr (hrq.trans hc.isProperAncestor.isAncestor)
  have h1 := hrq.1
  have h2 := hc.1
  rw [hrc] at h1
  omega

/-- No child of a node at or below a root is tracked. -/
lemma not_tracked_of_root (h : Frontier I top R σ₀ (d + 1) T σ) {r q c : κ} (hr : R r)
    (hrq : IsAncestor r q) (hq : level q = d) (hc : IsChild q c) : ¬ T c := by
  intro hT
  have hlc : level c = d + 1 := by rw [hc.1, hq]
  have hrc := (h.tracked_open c hT hlc).2 r hr (hrq.trans hc.isProperAncestor.isAncestor)
  have h1 := hrq.1
  rw [hrc] at h1
  omega

/-- A pass does not reach into the subtree of a root that it has not come up to. -/
lemma pass_untouched (h : Frontier I top R σ₀ (d + 1) T σ)
    (hpass : LevelPass HandsUp cap d T σ σ')
    {r k : κ} (hr : R r) (hrd : level r ≤ d) (hrk : IsAncestor r k) : σ' k = σ k := by
  by_cases hk : level k = d
  · obtain ⟨L, hL, hstep, -⟩ := hpass.sampled k hk
    have hnil : ∀ c, c ∉ L := fun c hcL =>
      h.not_tracked_of_root hr hrk hk ((hL c).mp hcL).1 ((hL c).mp hcL).2
    have h0 : gathered σ L = 0 := gathered_eq_zero.mpr fun c hc => absurd hc (hnil c)
    exact (hstep.idle h0).1
  · by_cases hk1 : level k = d + 1
    · have hup : level (up k) = d := by rw [level_up]; omega
      have hchild : IsChild (up k) k := isChild_up (by omega)
      have hrup : IsAncestor r (up k) := by
        refine ⟨by omega, ?_⟩
        rw [ancestorAt_up (by omega), hrk.2]
      obtain ⟨L, hL, hstep, -⟩ := hpass.sampled (up k) hup
      refine hstep.kept k hchild fun hkL => ?_
      exact h.not_tracked_of_root hr hrup hup hchild ((hL k).mp hkL).2
    · exact hpass.other k hk hk1

/-- A pass over a level with nothing to gather changes nothing. -/
lemma LevelPass.idle (hT : ∀ c, level c = d + 1 → ¬ T c) :
    LevelPass HandsUp cap d T σ σ where
  sampled q hq := by
    refine ⟨[], fun c => ⟨fun hc => absurd hc List.not_mem_nil, fun hc => ?_⟩, ?_,
      fun hne => absurd rfl hne⟩
    · exact absurd hc.2 (hT c (by rw [hc.1.1, hq]))
    · refine ⟨by simp, List.nodup_nil, fun _ _ _ => rfl, by simp, fun h0 => absurd rfl h0, ?_⟩
      intro hlt
      simp at hlt
  other _ _ _ := rfl

/-- One more level: a pass over level `d` finishes every subtree rooted at level `d`. -/
lemma next (hroots : Roots I top R σ₀) (h : Frontier I top R σ₀ (d + 1) T σ)
    (hpass : LevelPass HandsUp cap d T σ σ')
    (hT' : ∀ c, T' c → level c = d → R c ∨ ∃ c', IsChild c c' ∧ T c')
    (hun : ∀ c, IsAncestor top c → level c = d → Open R c → ¬ T' c → σ' c = 0)
    (htop : level top ≤ d) :
    Frontier I top R σ₀ d T' σ' where
  built q hq hd hopen := by
    by_cases hRq : R q
    · have hsame : ∀ k, IsAncestor q k → σ' k = σ₀ k := fun k hk => by
        rw [h.pass_untouched hpass hRq hd.le hk, h.untouched q k hRq (by omega) hk]
      exact I.congr hsame (hroots.holds q hRq)
    · obtain ⟨L, hL, hstep, hhands⟩ := hpass.sampled q hd
      have hchildTop : ∀ c, IsChild q c → IsAncestor top c := fun c hc =>
        hq.trans hc.isProperAncestor.isAncestor
      have hchildOpen : ∀ c, IsChild q c → Open R c := by
        intro c hc r hr hrc
        by_contra hne
        -- a root strictly above `c` is at or above `q`, hence `q` itself
        have hlt := (hrc.proper hne).1
        have hlc := hc.1
        have hrq : IsAncestor r q :=
          hrc.of_level_le hc.isProperAncestor.isAncestor (by omega)
        exact hRq (hopen r hr hrq ▸ hr)
      have hq0 : σ q = 0 := by
        rw [h.shallow q (by omega), hroots.eq_zero_of_open hq hopen hRq]
      refine I.step hstep hq0 ?_ ?_ (fun hne => ?_) (fun hne => hhands hne hq0) ?_
      · intro c hc hcL
        refine h.untracked c (hchildTop c hc) (by rw [hc.1, hd]) (hchildOpen c hc) fun hTc => ?_
        exact hcL ((hL c).mpr ⟨hc, hTc⟩)
      · intro k hk hnc
        refine hpass.other k (by have := hk.1; omega) fun hk1 => hnc ?_
        obtain ⟨c, hc, hck⟩ := hk.exists_child
        have hlc := hc.1
        rwa [← hck.eq_of_level (by omega)]
      · exact hroots.inner q hq hne fun r hr hrq => hRq (hopen r hr hrq ▸ hr)
      · intro c hc
        exact h.built c (hchildTop c hc) (by rw [hc.1, hd]) (hchildOpen c hc)
  shallow k hk := by
    rw [hpass.other k (by omega) (by omega), h.shallow k (by omega)]
  untouched r k hr hrd hrk := by
    rw [h.pass_untouched hpass hr hrd hrk, h.untouched r k hr (by omega) hrk]
  tracked_open c hc hd := by
    rcases hT' c hc hd with hRc | ⟨c', hchild, hTc'⟩
    · exact ⟨hroots.below c hRc, fun r hr hrc => hroots.antichain r c hr hRc hrc⟩
    · obtain ⟨htop', hopen'⟩ := h.tracked_open c' hTc' (by rw [hchild.1, hd])
      have hup := hchild.isProperAncestor.isAncestor
      exact ⟨htop'.of_level_le hup (by omega), open_of_child hchild hopen'⟩
  untracked := hun

/-- A walk over levels with nothing to gather: it may start at any level above which every root
that holds points is tracked, although deeper roots may have points below them. -/
lemma start_above (h : Roots I top R σ₀) {n : ℕ} (hD : ∀ r, R r → level r ≤ d + n)
    (htop : level top ≤ d) (hT : ∀ c, T c → level c = d → R c)
    (hR : ∀ c, R c → level c = d → ¬ T c → σ₀ c = 0)
    (hdeep : ∀ c, R c → d < level c → σ₀ c = 0) : Frontier I top R σ₀ d T σ₀ := by
  induction n generalizing d T with
  | zero => exact start h hD hT hR
  | succ n ih =>
    -- the next deeper level tracks nothing, and its pass changes nothing
    have hbelow : Frontier I top R σ₀ (d + 1) (fun _ => False) σ₀ :=
      ih (fun r hr => (hD r hr).trans (by omega)) (by omega) (fun _ hc _ => hc.elim)
        (fun c hc hl _ => hdeep c hc (by omega)) fun c hc hl => hdeep c hc (by omega)
    refine next h hbelow (LevelPass.idle fun _ _ => id) (fun c hc hl => Or.inl (hT c hc hl)) ?_ htop
    intro c hc hl hopen hnT
    by_cases hRc : R c
    · exact hR c hRc hl hnT
    · exact h.eq_zero_of_open hc hopen hRc

/-- At the level of the top of the walk, the top itself has the property. -/
lemma holds_top (h : Frontier I top R σ₀ (level top) T σ) (hR : ∀ r, R r → IsAncestor top r) :
    I.Holds top σ := by
  refine h.built top (IsAncestor.refl top) rfl fun r hr hrt => ?_
  exact hrt.eq_of_level (le_antisymm hrt.1 (hR r hr).1)

end Frontier

end LevelTree
