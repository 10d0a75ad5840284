import CopcConverter.Foundations.PyramidInvariants

/-!
# What the nodes of a pyramid offer

Whether a bottom-up walk leaves a gap is decided by what comes up to every node before anything is
handed on from there.  A node whose points are not sampled offers all points of its voxel; a
*crowded* one, which has too many points for a leaf and is not a last leaf either, offers what a
step hands up from the offers of its children.  Such offers are a matter of the points and of the
tree alone: no walk, no store and no order of the steps occurs in their definition (`Offers`).

A step that collapses its children empties them, and a crowded parent has points further down that
stay there; a child that offers nothing although it has points keeps them all further down.  So the
walk leaves no gap exactly when every crowded node that offers points is *fed* (`Fed`): its children
offer too many points to be collapsed, and every child with points offers some.  This is carried up
the tree by the invariant `Accounted`, whose step puts the offers below the children together.
-/

namespace LevelTree

variable {κ P : Type*} [LevelTree κ] {A : Addressing P κ} {cap : ℕ} {pts : Multiset P}
  {Deep : κ → Prop} {HandsUp : κ → List κ → (κ → Multiset P) → Multiset P → Prop}
  {q : κ} {σ σ' O O' : κ → Multiset P}

/-! ## Offers -/

/-- A node that a walk has to take a step at: its voxel has more than `cap` points, and it is not at
or below a leaf that is as deep as leaves get. -/
def Crowded (A : Addressing P κ) (cap : ℕ) (pts : Multiset P) (Deep : κ → Prop) (v : κ) : Prop :=
  cap < (inside A pts v).card ∧ ¬ Deep v

/-- `L` lists children of `q` once, with every child that offers points. -/
structure Gathers (q : κ) (L : List κ) (O : κ → Multiset P) : Prop where
  nodup : L.Nodup
  isChild : ∀ c ∈ L, IsChild q c
  rest : ∀ c, IsChild q c → c ∉ L → O c = 0

/-- What the nodes at and below `q` offer to their parents: all points of the voxel, or at a crowded
node what a step may hand up from the offers of the children. -/
structure Offers (A : Addressing P κ) (cap : ℕ) (pts : Multiset P) (Deep : κ → Prop)
    (HandsUp : κ → List κ → (κ → Multiset P) → Multiset P → Prop) (q : κ) (O : κ → Multiset P) :
    Prop where
  whole : ∀ v, IsAncestor q v → ¬ Crowded A cap pts Deep v → O v = inside A pts v
  handed : ∀ v, IsAncestor q v → Crowded A cap pts Deep v →
    ∃ L, Gathers v L O ∧ HandsUp v L O (O v)

/-- The children of every crowded node at or below `q` that offers points itself offer more than
`cap` points together, and each of them that has points offers some. -/
def Fed (A : Addressing P κ) (cap : ℕ) (pts : Multiset P) (Deep : κ → Prop) (q : κ)
    (O : κ → Multiset P) : Prop :=
  ∀ v, IsAncestor q v → Crowded A cap pts Deep v → O v ≠ 0 →
    (∀ L, Gathers v L O → cap < (gathered O L).card) ∧
      ∀ c, IsChild v c → inside A pts c ≠ 0 → O c ≠ 0

/-- A voxel below one that is not crowded is not crowded, when depth is inherited. -/
lemma not_crowded_below (hdeep : ∀ q v, Deep q → IsAncestor q v → Deep v) {v : κ}
    (h : ¬ Crowded A cap pts Deep q) (hv : IsAncestor q v) : ¬ Crowded A cap pts Deep v := by
  rintro ⟨hmany, hnot⟩
  refine h ⟨hmany.trans_le (Multiset.card_le_card (inside_le_of_isAncestor hv)), fun hq => ?_⟩
  exact hnot (hdeep q v hq hv)

lemma Gathers.congr {L : List κ} (heq : ∀ c, IsChild q c → O' c = O c) (h : Gathers q L O) :
    Gathers q L O' where
  nodup := h.nodup
  isChild := h.isChild
  rest c hc hL := (heq c hc).trans (h.rest c hc hL)

omit [LevelTree κ] in
lemma gathered_congr {L : List κ} (heq : ∀ c ∈ L, O' c = O c) : gathered O' L = gathered O L := by
  unfold gathered
  rw [List.map_congr_left heq]

/-- Two lists of the children that offer points gather the same. -/
lemma Gathers.gathered_eq {L L' : List κ} (h : Gathers q L O) (h' : Gathers q L' O) :
    gathered O L = gathered O L' := by
  classical
  -- only the children that both list offer points
  have hcommon : ∀ {L L' : List κ}, Gathers q L O → Gathers q L' O →
      gathered O L = gathered O (L.filter (· ∈ L')) := by
    intro L L' hL hL'
    have hzero : ∀ M : List κ, (∀ c ∈ M, IsChild q c) →
        gathered O M = gathered O (M.filter (· ∈ L')) := by
      intro M hM
      induction M with
      | nil => rfl
      | cons c M ih =>
        have hrest := ih fun d hd => hM d (List.mem_cons_of_mem _ hd)
        by_cases hc : c ∈ L'
        · rw [List.filter_cons_of_pos (by simpa using hc), gathered_cons, gathered_cons, hrest]
        · rw [List.filter_cons_of_neg (by simpa using hc), gathered_cons, hrest,
            hL'.rest c (hM c List.mem_cons_self) hc, zero_add]
    exact hzero L hL.isChild
  rw [hcommon h h', hcommon h' h]
  refine gathered_perm O ((List.perm_ext_iff_of_nodup (h.nodup.filter _) (h'.nodup.filter _)).mpr
    fun c => ?_)
  simp only [List.mem_filter, decide_eq_true_eq]
  exact And.comm

/-- Children that offer all of their points offer those of their parent. -/
lemma Gathers.gathered_eq_inside [DecidableEq P] {L : List κ} (hL : Gathers q L O)
    (hO : ∀ c, IsChild q c → O c = inside A pts c) : gathered O L = inside A pts q := by
  refine Multiset.ext.mpr fun p => ?_
  by_cases hp : A.Inside p q
  · have hc : IsChild q (A.addr p (level q + 1)) := hp.child
    have hother : ∀ c' ∈ L, c' ≠ A.addr p (level q + 1) → p ∉ O c' := fun c' hc' hne hp' => by
      rw [hO c' (hL.isChild c' hc')] at hp'
      exact hne ((mem_inside.mp hp').2.eq_child (hL.isChild c' hc')).symm
    by_cases hcL : A.addr p (level q + 1) ∈ L
    · rw [count_gathered_eq hL.nodup hcL hother, hO _ hc, count_inside (A.inside_addr p _),
        count_inside hp]
    · -- a child that is not listed offers nothing, so the point is not there at all
      have hzero := (hO _ hc).symm.trans (hL.rest _ hc hcL)
      have hnone : p ∉ gathered O L := fun hp' => by
        obtain ⟨c', hc', hpc'⟩ := mem_gathered.mp hp'
        exact hother c' hc' (fun he => hcL (he ▸ hc')) hpc'
      rw [Multiset.count_eq_zero_of_notMem hnone, count_inside hp,
        ← count_inside (A.inside_addr p (level q + 1)), hzero, Multiset.count_zero]
  · have hnone : p ∉ gathered O L := fun hp' => by
      obtain ⟨c, hc, hpc⟩ := mem_gathered.mp hp'
      rw [hO c (hL.isChild c hc)] at hpc
      exact hp ((mem_inside.mp hpc).2.mono (hL.isChild c hc).isProperAncestor.isAncestor)
    rw [Multiset.count_eq_zero_of_notMem hnone,
      Multiset.count_eq_zero_of_notMem fun hin => hp (mem_inside.mp hin).2]

/-! ## The rules of the walk -/

/-- What the walk has to keep to: leaves are not crowded, and no step is taken at a deep node. -/
def offerRules (A : Addressing P κ) (cap : ℕ) (pts : Multiset P) (Deep : κ → Prop) :
    WalkRules κ where
  Leaf k := ¬ Crowded A cap pts Deep k
  Inner k := ¬ Deep k

/-- The subtree of `q` is finished, and offers that end in the points at `q` tell whether there is a
gap below. -/
structure Accounted [DecidableEq P] (A : Addressing P κ) (cap : ℕ) (pts : Multiset P)
    (Deep : κ → Prop) (HandsUp : κ → List κ → (κ → Multiset P) → Multiset P → Prop) (q : κ)
    (σ : κ → Multiset P) : Prop where
  conserved : Conserved A cap pts q σ
  offers : ∃ O, Offers A cap pts Deep HandsUp q O ∧ O q = σ q ∧
    (Gapless q σ ↔ Fed A cap pts Deep q O)

/-- The hypotheses on the rules: depth is inherited, and a step looks at nothing but the children it
has gathered and hands up nothing if there are none. -/
structure Lawful (Deep : κ → Prop)
    (HandsUp : κ → List κ → (κ → Multiset P) → Multiset P → Prop) : Prop where
  deep : ∀ q v, Deep q → IsAncestor q v → Deep v
  congr : ∀ {q L σ σ' m}, (∀ c ∈ L, σ' c = σ c) → HandsUp q L σ m → HandsUp q L σ' m
  nil : ∀ q σ, HandsUp q [] σ 0

lemma Crowded.ne_zero (h : Crowded A cap pts Deep q) : inside A pts q ≠ 0 := fun h0 => by
  have hmany := h.1
  rw [h0] at hmany
  exact absurd hmany (Nat.not_lt_zero _)

/-! ## A step of the walk -/

/-- A step at the empty node `q` that has gathered the children `L` with points, and has handed up
points from them. -/
structure HandingStep (cap : ℕ) (HandsUp : κ → List κ → (κ → Multiset P) → Multiset P → Prop)
    (q : κ) (L : List κ) (σ σ' : κ → Multiset P) : Prop where
  step : SampleStep cap q L σ σ'
  start : σ q = 0
  rest : ∀ c, IsChild q c → c ∉ L → σ c = 0
  frame : ∀ k, IsProperAncestor q k → ¬ IsChild q k → σ' k = σ k
  hands : L ≠ [] → HandsUp q L σ (σ' q)

namespace HandingStep

variable {L : List κ}

lemma gathers (h : HandingStep cap HandsUp q L σ σ') : Gathers q L σ :=
  ⟨h.step.nodup, h.step.isChild, h.rest⟩

/-- Whatever was gathered, the parent holds something a step hands up. -/
lemma handed (hlaw : Lawful Deep HandsUp) (h : HandingStep cap HandsUp q L σ σ') :
    HandsUp q L σ (σ' q) := by
  by_cases hnil : L = []
  · subst hnil
    rw [(h.step.idle rfl).1, h.start]
    exact hlaw.nil q σ
  · exact h.hands hnil

/-- The parent is without gaps exactly when its children are and the step buries none of them,
unless it hands up nothing. -/
lemma gapless_iff (h : HandingStep cap HandsUp q L σ σ') : Gapless q σ' ↔
    (∀ c, IsChild q c → Gapless c σ) ∧ (σ' q ≠ 0 → NoBuriedChild cap q L σ) :=
  ⟨Gapless.back h.step h.start h.rest h.frame,
    fun hg => Gapless.step h.step h.rest h.frame hg.2 hg.1⟩

section Conserved

variable [DecidableEq P]

lemma conserved (h : HandingStep cap HandsUp q L σ σ')
    (hch : ∀ c, IsChild q c → Conserved A cap pts c σ) : Conserved A cap pts q σ' :=
  Conserved.step h.step h.start h.rest h.frame hch

/-- A crowded parent that has points and buries no child has gathered too many points for a
collapse: otherwise nothing would be stored below it, and the points of its voxel would be few. -/
lemma lt_gathered (h : HandingStep cap HandsUp q L σ σ')
    (hch : ∀ c, IsChild q c → Conserved A cap pts c σ) (hcrowded : Crowded A cap pts Deep q)
    (hne : σ' q ≠ 0) (hburied : NoBuriedChild cap q L σ) : cap < (gathered σ L).card := by
  by_contra hle
  rw [Nat.not_lt] at hle
  have h0 : gathered σ L ≠ 0 := fun h0 => hne ((h.step.idle h0).1.trans h.start)
  obtain ⟨hparent, hempty⟩ := h.step.collapse h0 hle
  have hall := (h.conserved hch).eq_inside fun k hk => by
    obtain ⟨c, hc, hck⟩ := hk.exists_child
    rcases hck.eq_or_proper with rfl | hlt
    · by_cases hcL : c ∈ L
      · exact hempty c hcL
      · rw [h.step.kept c hc hcL, h.rest c hc hcL]
    · rw [h.frame k hk fun hqk => ?_]
      · exact hburied c k hc hlt (Or.inl hle)
      · have h1 := hqk.1
        have h2 := hlt.1
        have h3 := hc.1
        omega
  have hmany := hcrowded.1
  rw [← hall, hparent] at hmany
  omega

/-- The step buries no child exactly when its children offer too many points for a collapse and
every child with points offers some. -/
lemma noBuriedChild_iff (h : HandingStep cap HandsUp q L σ σ')
    (hch : ∀ c, IsChild q c → Conserved A cap pts c σ) (hcrowded : Crowded A cap pts Deep q)
    (hne : σ' q ≠ 0) : NoBuriedChild cap q L σ ↔
      cap < (gathered σ L).card ∧ ∀ c, IsChild q c → inside A pts c ≠ 0 → σ c ≠ 0 := by
  constructor
  · intro hburied
    refine ⟨h.lt_gathered hch hcrowded hne hburied, fun c hc hin h0 => hin ?_⟩
    rw [← (hch c hc).eq_inside fun k hk => hburied c k hc hk (Or.inr h0), h0]
  · rintro ⟨hmany, hoffer⟩ c k hc hck (hle | h0)
    · omega
    · refine (hch c hc).eq_zero_of_inside ?_ hck.isAncestor
      by_contra hin
      exact hoffer c hc hin h0

/-- A parent that is not crowded and may take a step has nothing stored below it afterwards. -/
lemma below_eq_zero (h : HandingStep cap HandsUp q L σ σ')
    (hch : ∀ c, IsChild q c → Conserved A cap pts c σ) (hinner : inside A pts q ≠ 0 → ¬ Deep q)
    (hnot : ¬ Crowded A cap pts Deep q) (k : κ) (hk : IsProperAncestor q k) : σ' k = 0 := by
  refine (h.conserved hch).compact q k (IsAncestor.refl q) hk ?_
  by_contra hmany
  refine hnot ⟨Nat.lt_of_not_le hmany, hinner fun h0 => hmany ?_⟩
  rw [h0]
  exact Nat.zero_le _

end Conserved

end HandingStep

/-! ## Putting offers together -/

/-- `G` is `m` at `q` and agrees below every child with the offers found there. -/
structure Glued (q : κ) (m : Multiset P) (O : κ → κ → Multiset P) (G : κ → Multiset P) : Prop where
  top : G q = m
  below : ∀ c, IsChild q c → ∀ v, IsAncestor c v → G v = O c v

/-- Offers below the children of `q` and the points handed up to `q` can be put together. -/
lemma exists_glued (q : κ) (m : Multiset P) (O : κ → κ → Multiset P) : ∃ G, Glued q m O G := by
  classical
  refine ⟨fun v => if v = q then m else O (ancestorAt v (level q + 1)) v, if_pos rfl,
    fun c hc v hv => ?_⟩
  have hne : v ≠ q := by
    rintro rfl
    have h1 := hv.1
    have h2 := hc.1
    omega
  have hup : ancestorAt v (level q + 1) = c := by
    rw [← hc.1]
    exact hv.2
  simp only [if_neg hne, hup]

namespace Glued

variable {m : Multiset P} {O : κ → κ → Multiset P} {G : κ → Multiset P} {c v : κ} {L : List κ}

/-- Below a child, a node and its own children have the offers found there. -/
lemma child (h : Glued q m O G) (hc : IsChild q c) (hv : IsAncestor c v) (d : κ)
    (hd : IsChild v d) : G d = O c d :=
  h.below c hc d (hv.trans hd.isProperAncestor.isAncestor)

lemma gathers_iff (h : Glued q m O G) (hc : IsChild q c) (hv : IsAncestor c v) :
    Gathers v L G ↔ Gathers v L (O c) :=
  ⟨Gathers.congr fun d hd => (h.child hc hv d hd).symm, Gathers.congr (h.child hc hv)⟩

lemma gathered_eq (h : Glued q m O G) (hc : IsChild q c) (hv : IsAncestor c v)
    (hL : Gathers v L G) : gathered G L = gathered (O c) L :=
  gathered_congr fun d hd => h.child hc hv d (hL.isChild d hd)

/-- Glued offers are offers, if those below the children are and the top has its due. -/
lemma offers (hlaw : Lawful Deep HandsUp) (h : Glued q m O G)
    (hO : ∀ c, IsChild q c → Offers A cap pts Deep HandsUp c (O c))
    (hwhole : ¬ Crowded A cap pts Deep q → m = inside A pts q)
    (hhanded : Crowded A cap pts Deep q → ∃ L, Gathers q L G ∧ HandsUp q L G m) :
    Offers A cap pts Deep HandsUp q G where
  whole v hv hnot := by
    rcases hv.eq_or_proper with rfl | hlt
    · exact h.top.trans (hwhole hnot)
    · obtain ⟨c, hc, hcv⟩ := hlt.exists_child
      rw [h.below c hc v hcv]
      exact (hO c hc).whole v hcv hnot
  handed v hv hcrowded := by
    rcases hv.eq_or_proper with rfl | hlt
    · rw [h.top]
      exact hhanded hcrowded
    · obtain ⟨c, hc, hcv⟩ := hlt.exists_child
      obtain ⟨L, hL, hup⟩ := (hO c hc).handed v hcv hcrowded
      refine ⟨L, (h.gathers_iff hc hcv).mpr hL, ?_⟩
      rw [h.below c hc v hcv]
      exact hlaw.congr (fun d hd => h.child hc hcv d (hL.isChild d hd)) hup

/-- Glued offers feed the nodes below `q` if they do so below every child and at `q`. -/
lemma fed_iff (h : Glued q m O G) : Fed A cap pts Deep q G ↔
    (∀ c, IsChild q c → Fed A cap pts Deep c (O c)) ∧
      (Crowded A cap pts Deep q → m ≠ 0 →
        (∀ L, Gathers q L G → cap < (gathered G L).card) ∧
          ∀ c, IsChild q c → inside A pts c ≠ 0 → O c c ≠ 0) := by
  have hchild : ∀ c, IsChild q c → G c = O c c := fun c hc => h.below c hc c (IsAncestor.refl c)
  constructor
  · intro hfed
    refine ⟨fun c hc v hcv hcrowded hne => ?_, fun hcrowded hne => ?_⟩
    · rw [← h.below c hc v hcv] at hne
      obtain ⟨hmany, hoffer⟩ :=
        hfed v (hc.isProperAncestor.isAncestor.trans hcv) hcrowded hne
      refine ⟨fun L hL => ?_, fun d hd hin => h.child hc hcv d hd ▸ hoffer d hd hin⟩
      have hL' := (h.gathers_iff hc hcv).mpr hL
      rw [← h.gathered_eq hc hcv hL']
      exact hmany L hL'
    · obtain ⟨hmany, hoffer⟩ := hfed q (IsAncestor.refl q) hcrowded (h.top ▸ hne)
      exact ⟨hmany, fun c hc hin => hchild c hc ▸ hoffer c hc hin⟩
  · rintro ⟨hbelow, htop⟩ v hv hcrowded hne
    rcases hv.eq_or_proper with rfl | hlt
    · obtain ⟨hmany, hoffer⟩ := htop hcrowded (h.top ▸ hne)
      exact ⟨hmany, fun c hc hin => (hchild c hc).symm ▸ hoffer c hc hin⟩
    · obtain ⟨c, hc, hcv⟩ := hlt.exists_child
      rw [h.below c hc v hcv] at hne
      obtain ⟨hmany, hoffer⟩ := hbelow c hc v hcv hcrowded hne
      refine ⟨fun L hL => ?_, fun d hd hin => (h.child hc hcv d hd).symm ▸ hoffer d hd hin⟩
      rw [h.gathered_eq hc hcv hL]
      exact hmany L ((h.gathers_iff hc hcv).mp hL)

end Glued

/-! ## The invariant -/

namespace Accounted

variable [DecidableEq P]

lemma congr (heq : ∀ k, IsAncestor q k → σ' k = σ k) (h : Accounted A cap pts Deep HandsUp q σ) :
    Accounted A cap pts Deep HandsUp q σ' where
  conserved := h.conserved.congr heq
  offers := by
    obtain ⟨O, hO, hq, hgap⟩ := h.offers
    refine ⟨O, hO, hq.trans (heq q (IsAncestor.refl q)).symm, Iff.trans ?_ hgap⟩
    exact ⟨Gapless.congr fun k hk => (heq k hk).symm, Gapless.congr heq⟩

/-- A leaf offers all of its points, and so does everything below it. -/
lemma leaf (hdeep : ∀ q v, Deep q → IsAncestor q v → Deep v)
    (hleaf : inside A pts q ≠ 0 → ¬ Crowded A cap pts Deep q) (hq : σ q = inside A pts q)
    (hbelow : ∀ k, IsProperAncestor q k → σ k = 0) : Accounted A cap pts Deep HandsUp q σ where
  conserved := Conserved.leaf hq hbelow
  offers := by
    have hnot : ¬ Crowded A cap pts Deep q := fun h => hleaf h.ne_zero h
    have hnone : ∀ v, IsAncestor q v → ¬ Crowded A cap pts Deep v := fun v =>
      not_crowded_below hdeep hnot
    exact ⟨inside A pts, ⟨fun _ _ _ => rfl, fun v hv h => absurd h (hnone v hv)⟩, hq.symm,
      fun _ v hv h => absurd h (hnone v hv), fun _ => Gapless.leaf hbelow⟩

/-- The parent of a step is accounted for when its children are. -/
lemma step (hlaw : Lawful Deep HandsUp) {L : List κ} (hs : HandingStep cap HandsUp q L σ σ')
    (hinner : inside A pts q ≠ 0 → ¬ Deep q)
    (h : ∀ c, IsChild q c → Accounted A cap pts Deep HandsUp c σ) :
    Accounted A cap pts Deep HandsUp q σ' where
  conserved := hs.conserved fun c hc => (h c hc).conserved
  offers := by
    have hch : ∀ c, IsChild q c → Conserved A cap pts c σ := fun c hc => (h c hc).conserved
    have hex : ∀ c, ∃ O, IsChild q c → Offers A cap pts Deep HandsUp c O ∧ O c = σ c ∧
        (Gapless c σ ↔ Fed A cap pts Deep c O) := fun c => by
      by_cases hc : IsChild q c
      · obtain ⟨O, hO⟩ := (h c hc).offers
        exact ⟨O, fun _ => hO⟩
      · exact ⟨0, fun hc' => absurd hc' hc⟩
    choose O hO using hex
    obtain ⟨G, hG⟩ := exists_glued q (σ' q) O
    have hGc : ∀ c, IsChild q c → G c = σ c := fun c hc =>
      (hG.below c hc c (IsAncestor.refl c)).trans (hO c hc).2.1
    have hsum : gathered G L = gathered σ L :=
      gathered_congr fun c hc => hGc c (hs.step.isChild c hc)
    have hL : Gathers q L G := hs.gathers.congr hGc
    have hwhole : ¬ Crowded A cap pts Deep q → ∀ k, IsProperAncestor q k → σ' k = 0 := fun hnot =>
      hs.below_eq_zero hch hinner hnot
    refine ⟨G, hG.offers hlaw (fun c hc => (hO c hc).1)
      (fun hnot => (hs.conserved hch).eq_inside (hwhole hnot)) (fun _ => ⟨L, hL, ?_⟩), hG.top, ?_⟩
    · exact hlaw.congr (fun c hc => hGc c (hs.step.isChild c hc)) (hs.handed hlaw)
    · by_cases hcrowded : Crowded A cap pts Deep q
      · rw [hs.gapless_iff, hG.fed_iff]
        refine and_congr (forall₂_congr fun c hc => (hO c hc).2.2) ?_
        refine Iff.trans ?_ (forall_prop_of_true hcrowded).symm
        refine forall_congr' fun hne => (hs.noBuriedChild_iff hch hcrowded hne).trans ?_
        refine and_congr ⟨fun hmany M hM => ?_, fun hmany => hsum ▸ hmany L hL⟩
          (forall₂_congr fun c hc => by rw [(hO c hc).2.1])
        rw [hM.gathered_eq hL, hsum]
        exact hmany
      · -- a parent that is not crowded ends with nothing below it, and no crowded node is below
        refine iff_of_true (Gapless.leaf (hwhole hcrowded)) fun v hv hvc => absurd hvc ?_
        exact not_crowded_below hlaw.deep hcrowded hv

end Accounted

/-- A walk that keeps to the rules accounts for every subtree it finishes. -/
def offerInvariant [DecidableEq P] (A : Addressing P κ) (cap : ℕ) (pts : Multiset P)
    (hlaw : Lawful Deep HandsUp) :
    PyramidInvariant A cap pts HandsUp (offerRules A cap pts Deep) where
  Holds := Accounted A cap pts Deep HandsUp
  congr := Accounted.congr
  leaf := Accounted.leaf hlaw.deep
  step hstep hq hL hframe hinner hhands :=
    Accounted.step hlaw ⟨hstep, hq, hL, hframe, hhands⟩ hinner

end LevelTree
