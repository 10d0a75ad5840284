import CopcConverter.Storage.PackedNodeStore

/-!
# The locks of the packs

The packed store keeps many nodes in one file, and a call takes the locks of a pack before it
changes the file and the index, and gives them back when it is done.  While one thread has them, all
others that need them wait.  Here it is shown that no call waits for ever.

A thread that has the locks of a pack only has to send the bytes of its batch before it gives them
back, and it waits for nothing while it does so.  So a measure of the work that is left decreases
with every step of the holder, and whoever needs the locks gets them after finitely many steps.
From this, in every run every call can be brought to its end, also when no new calls are made.
-/

namespace CopcConverter

open Calls

namespace PackedNodeStore

variable {T : Type} {store : PackedNodeStore T} {t : T} {s s' : PackedState T} {call : NodeCall}
  {phase phase' : PackedPhase}

/-! ## Who has the locks -/

variable (store) in
/-- A call has the locks of a pack. -/
def Holding (i : ℕ) (t : T) : NodeCall → PackedPhase → Prop
  | .write _ _, .appending _ _ => i = store.currentPackId t
  | .query .read _, .flushing loc => i = loc.packId.toNat
  | _, _ => False

/-- The phases that a call goes through. -/
def Suits : NodeCall → PackedPhase → Prop
  | .write _ _, .called | .write _ _, .appending _ _ | .write _ _, .appended _
  | .write _ _, .inserted => True
  | .query _ _, .called | .query _ _, .found _ => True
  | .query .read _, .flushing _ | .query .read _, .reading _ _ => True
  | _, _ => False

lemma Steps.suits (h : store.Steps t s call phase phase' s') : Suits call phase' := by
  cases h with
  | append | send | release | insert | lookup | flush | sendHeld | flushed | look => trivial

/-- The locks of a changed pack. -/
lemma holder_setPack {i j : ℕ} {p : Pack T} {u : T}
    (h : ((s.setPack i p).packs j).holder = some u) :
    (j = i ∧ p.holder = some u) ∨ (j ≠ i ∧ (s.packs j).holder = some u) := by
  by_cases hj : j = i
  · obtain rfl := hj
    rw [PackedState.setPack_self] at h
    exact Or.inl ⟨rfl, h⟩
  · rw [PackedState.setPack_of_ne s hj] at h
    exact Or.inr ⟨hj, h⟩

/-- A step gives no locks to other threads. -/
lemma Steps.holder_other (h : store.Steps t s call phase phase' s') {i : ℕ} {u : T} (hu : u ≠ t)
    (hi : (s'.packs i).holder = some u) : (s.packs i).holder = some u := by
  cases h with
  | append | flush =>
    rcases holder_setPack hi with ⟨-, hself⟩ | ⟨-, hold⟩
    · exact absurd (Option.some.inj hself).symm hu
    · exact hold
  | send | sendHeld =>
    rcases holder_setPack hi with ⟨rfl, hold⟩ | ⟨-, hold⟩
    · exact hold
    · exact hold
  | release | flushed =>
    rcases holder_setPack hi with ⟨-, hnone⟩ | ⟨-, hold⟩
    · cases hnone
    · exact hold
  | insert | lookup | look => exact hi

/-- A thread that has locks after a step is in a phase that has them. -/
lemma Steps.holding (h : store.Steps t s call phase phase' s')
    (hlocks : ∀ i, (s.packs i).holder = some t → store.Holding i t call phase) {i : ℕ}
    (hi : (s'.packs i).holder = some t) : store.Holding i t call phase' := by
  cases h with
  | append =>
    rcases holder_setPack hi with ⟨rfl, -⟩ | ⟨-, hold⟩
    · rfl
    · exact (hlocks i hold).elim
  | flush =>
    rcases holder_setPack hi with ⟨rfl, -⟩ | ⟨-, hold⟩
    · rfl
    · exact (hlocks i hold).elim
  | send | sendHeld =>
    rcases holder_setPack hi with ⟨rfl, -⟩ | ⟨-, hold⟩
    · rfl
    · exact hlocks i hold
  | release | flushed =>
    rcases holder_setPack hi with ⟨-, hnone⟩ | ⟨hne, hold⟩
    · cases hnone
    · exact absurd (hlocks i hold) hne
  | insert => exact (hlocks i hi).elim
  | @lookup q key =>
    cases q with
    | read | count => exact (hlocks i hi).elim
  | look => exact (hlocks i hi).elim

/-- A call that has locks does not return. -/
lemma finish_of_holding {i fuel : ℕ} {chops : ℕ → ℕ} (h : store.Holding i t call phase) :
    store.finish fuel t chops call phase s = none := by
  match call, phase, h with
  | .write _ _, .appending _ _, _ => rfl
  | .query .read _, .flushing _, _ => rfl

variable (store) in
/-- The locks of a pack are only held by calls that are about to give them back. -/
structure Live (s : System T NodeCall NodeAnswer (PackedState T) PackedPhase) : Prop where
  suits : ∀ t call phase, s.threads t = some (call, phase) → Suits call phase
  locks : ∀ i u, (s.shared.packs i).holder = some u →
    ∃ call phase, s.threads u = some (call, phase) ∧ store.Holding i u call phase

lemma Live.acts [DecidableEq T] {fuel : ℕ}
    {s s' : System T NodeCall NodeAnswer (PackedState T) PackedPhase} (hs : store.Live s)
    (h : Acts (store.calls fuel) s s') : store.Live s' := by
  refine ⟨Acts.phases (Q := fun _ => Suits) ?_ ?_ hs.suits h, fun i u hi => ?_⟩
  · intro t call
    cases call with
    | write | query => trivial
  · intro t a call phase phase' shared shared' _ hstep
    exact (steps_of_step hstep).suits
  · cases h with
    | invoke t call hnone =>
      obtain ⟨c, phase, hu, hholding⟩ := hs.locks i u hi
      have hut : u ≠ t := by
        rintro rfl
        rw [hnone] at hu
        cases hu
      exact ⟨c, phase, by simp only [Function.update_of_ne hut, hu], hholding⟩
    | step t a call p p' shared ht hstep =>
      have hsteps := steps_of_step hstep
      by_cases hut : u = t
      · obtain rfl := hut
        refine ⟨call, p', Function.update_self _ _ _, hsteps.holding (fun j hj => ?_) hi⟩
        obtain ⟨c, phase, hu, hholding⟩ := hs.locks j u hj
        obtain ⟨rfl, rfl⟩ := Prod.mk.inj (Option.some.inj (hu.symm.trans ht))
        exact hholding
      · obtain ⟨c, phase, hu, hholding⟩ := hs.locks i u (hsteps.holder_other hut hi)
        exact ⟨c, phase, by simp only [Function.update_of_ne hut, hu], hholding⟩
    | respond t a call p r ht hfinish =>
      obtain ⟨c, phase, hu, hholding⟩ := hs.locks i u hi
      have hut : u ≠ t := by
        rintro rfl
        obtain ⟨rfl, rfl⟩ := Prod.mk.inj (Option.some.inj (hu.symm.trans ht))
        exact absurd ((finish_of_holding hholding).symm.trans hfinish) (by simp)
      exact ⟨c, phase, by simp only [Function.update_of_ne hut, hu], hholding⟩

/-! ## Coming closer to the end -/

/-- What has to be done before the locks of a pack are free. -/
def work (p : Pack T) : ℕ := p.outgoing.length + if p.holder.isSome then 1 else 0

/-- The phases that come after a phase. -/
def later : PackedPhase → ℕ
  | .called => 3
  | .appending _ _ | .found _ => 2
  | .appended _ | .flushing _ => 1
  | .inserted | .reading _ _ => 0

variable (store) in
/-- The pack whose locks a call needs. -/
def needs (t : T) : PackedPhase → ℕ
  | .found (some loc) | .flushing loc => loc.packId.toNat
  | _ => store.currentPackId t

variable (store) in
/-- How far a call is from its end. -/
def left (s : PackedState T) (t : T) (phase : PackedPhase) : ℕ ×ₗ ℕ :=
  toLex (later phase, work (s.packs (store.needs t phase)))

/-- Sending makes the work less. -/
lemma work_send {p : Pack T} (h : p.outgoing.isEmpty = false) (n : ℕ) :
    work (p.send n) < work p := by
  have hpos := List.length_pos_of_ne_nil (List.isEmpty_eq_false_iff.mp h)
  refine Nat.add_lt_add_right ?_ _
  rw [Pack.send, List.length_drop]
  omega

/-- With nothing to send the work ends with the locks. -/
lemma work_release {p : Pack T} (h : p.outgoing = []) (byteLen : ℕ) :
    work (p.release byteLen) = 0 := by
  rw [work, Pack.release, h]
  rfl

/-- A call that has the locks of a pack sends bytes, or gives the locks back and comes to its next
phase. -/
lemma step_of_holding {i : ℕ} (h : store.Holding i t call phase) : ∃ phase' s',
    store.step t (fun _ => 0) call phase s = some (phase', s') ∧
      ((phase' = phase ∧ work (s'.packs i) < work (s.packs i)) ∨
        (later phase' < later phase ∧ work (s'.packs i) = 0)) := by
  match call, phase, h with
  | .write key points, .appending offset byteLen, h =>
    obtain rfl : i = store.currentPackId t := h
    cases hsent : (s.packs (store.currentPackId t)).outgoing.isEmpty with
    | true =>
      refine ⟨_, _, if_pos hsent, Or.inr ⟨Nat.lt_succ_self _, ?_⟩⟩
      rw [PackedState.setPack_self]
      exact work_release (List.isEmpty_iff.mp hsent) _
    | false =>
      refine ⟨_, _, if_neg (by simp [hsent]), Or.inl ⟨rfl, ?_⟩⟩
      rw [PackedState.setPack_self]
      exact work_send hsent 0
  | .query .read key, .flushing loc, h =>
    obtain rfl : i = loc.packId.toNat := h
    cases hsent : (s.packs loc.packId.toNat).outgoing.isEmpty with
    | true =>
      refine ⟨_, _, if_pos hsent, Or.inr ⟨Nat.lt_succ_self _, ?_⟩⟩
      rw [PackedState.setPack_self]
      exact work_release (List.isEmpty_iff.mp hsent) _
    | false =>
      refine ⟨_, _, if_neg (by simp [hsent]), Or.inl ⟨rfl, ?_⟩⟩
      rw [PackedState.setPack_self]
      exact work_send hsent 0

/-- What a call can do next: it returns, it comes closer to its end, or it waits for the locks of a
pack that another thread has. -/
lemma next_of_suits (fuel : ℕ) (s : PackedState T) (t : T) (hsuits : Suits call phase) :
    (∃ r, store.finish fuel t (fun _ => 0) call phase s = some r) ∨
      (∃ phase' s', store.step t (fun _ => 0) call phase s = some (phase', s') ∧
        store.left s' t phase' < store.left s t phase) ∨
      ∃ u, (s.packs (store.needs t phase)).holder = some u ∧
        ¬ store.Holding (store.needs t phase) t call phase := by
  have hcloser : ∀ phase' (s' : PackedState T), later phase' < later phase →
      store.left s' t phase' < store.left s t phase := fun _ _ h => Prod.Lex.left _ _ h
  have hholding : store.Holding (store.needs t phase) t call phase →
      ∃ phase' s', store.step t (fun _ => 0) call phase s = some (phase', s') ∧
        store.left s' t phase' < store.left s t phase := by
    intro h
    obtain ⟨phase', s', hstep, ⟨rfl, hwork⟩ | ⟨hlater, -⟩⟩ :=
      @step_of_holding T store t s call phase _ h
    · exact ⟨_, s', hstep, Prod.Lex.right _ hwork⟩
    · exact ⟨phase', s', hstep, hcloser phase' s' hlater⟩
  match call, phase, hsuits with
  | .write key points, .called, _ =>
    cases hbuf : store.format.write points with
    | none => exact Or.inl ⟨.failed, by simp only [finish, hbuf, Option.isNone_none, if_true]⟩
    | some buf =>
      cases hfree : (s.packs (store.currentPackId t)).holder with
      | some u => exact Or.inr (Or.inr ⟨u, hfree, id⟩)
      | none =>
        have hstep : store.step t (fun _ => 0) (.write key points) .called s =
            some (.appending (s.packs (store.currentPackId t)).cursor (UInt32.ofNat buf.length),
              s.setPack (store.currentPackId t)
                ((s.packs (store.currentPackId t)).append t buf)) := by
          simp only [step, hbuf, hfree, Option.bind_some, Option.isNone_none, if_true]
        exact Or.inr (Or.inl ⟨_, _, hstep, hcloser _ _ (Nat.lt_succ_self _)⟩)
  | .write key points, .appending offset byteLen, _ => exact Or.inr (Or.inl (hholding rfl))
  | .write key points, .appended loc, _ =>
    exact Or.inr (Or.inl ⟨_, _, rfl, hcloser _ _ (Nat.lt_succ_self _)⟩)
  | .write key points, .inserted, _ => exact Or.inl ⟨_, rfl⟩
  | .query q key, .called, _ =>
    refine Or.inr (Or.inl ⟨.found (s.index key), s, ?_, hcloser _ _ (Nat.lt_succ_self _)⟩)
    cases q with
    | read | count => rfl
  | .query .count key, .found loc, _ => exact Or.inl ⟨_, rfl⟩
  | .query .read key, .found none, _ => exact Or.inl ⟨_, rfl⟩
  | .query .read key, .found (some loc), _ =>
    cases hfree : (s.packs loc.packId.toNat).holder with
    | some u => exact Or.inr (Or.inr ⟨u, hfree, id⟩)
    | none =>
      have hstep : store.step t (fun _ => 0) (.query .read key) (.found (some loc)) s =
          some (.flushing loc,
            s.setPack loc.packId.toNat ((s.packs loc.packId.toNat).flush t)) := by
        simp only [step, hfree, Option.isNone_none, if_true]
      exact Or.inr (Or.inl ⟨_, _, hstep, hcloser _ _ (Nat.lt_succ_self _)⟩)
  | .query .read key, .flushing loc, _ => exact Or.inr (Or.inl (hholding rfl))
  | .query .read key, .reading loc views, _ => exact Or.inl ⟨_, rfl⟩

section Runs

variable [DecidableEq T] (fuel : ℕ)
  {σ : System T NodeCall NodeAnswer (PackedState T) PackedPhase}

/-- The thread that has the locks of a pack can do some of its work. -/
lemma Live.unlock (hs : store.Live σ) {i : ℕ} {u : T}
    (hi : (σ.shared.packs i).holder = some u) : ∃ action σ', action.GoesOn ∧
      σ.act (store.calls fuel) action = some σ' ∧ (∀ t, t ≠ u → σ'.threads t = σ.threads t) ∧
      work (σ'.shared.packs i) < work (σ.shared.packs i) := by
  obtain ⟨call, phase, hu, hholding⟩ := hs.locks i u hi
  obtain ⟨phase', s', hstep, hwork⟩ := @step_of_holding T store u σ.shared call phase i hholding
  have hact : (store.calls fuel).step u (fun _ => 0) call phase σ.shared = some (phase', s') :=
    hstep
  refine ⟨.step u fun _ => 0, _, trivial, act_step hu hact,
    fun t ht => Function.update_of_ne ht _ _, ?_⟩
  rcases hwork with ⟨-, hlt⟩ | ⟨-, hzero⟩
  · exact hlt
  · have hpos : 0 < work (σ.shared.packs i) := by
      rw [work, hi]
      exact Nat.succ_pos _
    exact lt_of_eq_of_lt hzero hpos

/-- Some thread can bring a call closer to its end. -/
lemma Live.closer (hs : store.Live σ) {t : T} (hbusy : σ.threads t ≠ none) : ∃ action σ',
    action.GoesOn ∧ σ.act (store.calls fuel) action = some σ' ∧ (σ'.threads t = none ∨
      ((σ'.threads t).map fun w => store.left σ'.shared t w.2).getD (toLex (0, 0)) <
        ((σ.threads t).map fun w => store.left σ.shared t w.2).getD (toLex (0, 0))) := by
  obtain ⟨⟨call, phase⟩, ht⟩ := Option.ne_none_iff_exists'.mp hbusy
  obtain ⟨r, hfinish⟩ | ⟨phase', s', hstep, hlt⟩ | ⟨u, hholder, hnot⟩ :=
    @next_of_suits T store call phase fuel σ.shared t (hs.suits t call phase ht)
  · exact ⟨.respond t fun _ => 0, _, trivial, act_respond ht hfinish,
      Or.inl (Function.update_self _ _ _)⟩
  · have hact : (store.calls fuel).step t (fun _ => 0) call phase σ.shared = some (phase', s') :=
      hstep
    refine ⟨.step t fun _ => 0, _, trivial, act_step ht hact, Or.inr ?_⟩
    simp only [ht, Function.update_self, Option.map_some, Option.getD_some]
    exact hlt
  · obtain ⟨c, p, hu, hholding⟩ := hs.locks _ u hholder
    have htu : t ≠ u := by
      rintro rfl
      obtain ⟨rfl, rfl⟩ := Prod.mk.inj (Option.some.inj (hu.symm.trans ht))
      exact hnot hholding
    obtain ⟨action, σ', hon, hact, hsame, hwork⟩ := hs.unlock fuel hholder
    refine ⟨action, σ', hon, hact, Or.inr ?_⟩
    simp only [hsame t htu, ht, Option.map_some, Option.getD_some]
    exact Prod.Lex.right _ hwork

/-- In every run every call can be brought to its end without any new calls. -/
theorem calls_canReturnAlone {actions : List (Action T NodeCall (ℕ → ℕ))}
    (hrun : (System.start .new).run (store.calls fuel) actions = some σ) (t : T) :
    CanReturnAlone (store.calls fuel) σ t := by
  have hstart : store.Live (System.start .new) := by
    refine ⟨fun t call phase ht => ?_, fun i u hi => ?_⟩
    · cases ht
    · cases hi
  have hkeep : ∀ σ σ', store.Live σ → Acts (store.calls fuel) σ σ' → store.Live σ' :=
    fun _ _ hs h => hs.acts h
  exact canReturnAlone hkeep
    (fun σ => ((σ.threads t).map fun w => store.left σ.shared t w.2).getD (toLex (0, 0)))
    (fun _ hs hbusy => hs.closer fuel hbusy) (run_induction hstart hkeep hrun)

/-- In every run every call can be brought to its end. -/
theorem calls_canReturn {actions : List (Action T NodeCall (ℕ → ℕ))}
    (hrun : (System.start .new).run (store.calls fuel) actions = some σ) (t : T) :
    CanReturn (store.calls fuel) σ t := (calls_canReturnAlone fuel hrun t).canReturn

end Runs

end PackedNodeStore

end CopcConverter
