import CopcConverter.Foundations.Calls

/-!
# Objects that behave as maps

Some calls write a value under a key, the others ask something about the value of a key.  As long as
no two writes of one key overlap, an object behaves as a map when every query that overlaps with no
write of its key is answered about the value of the last write, or about no value when there was
none.

This is a property of histories, and it takes looking back over the history from a response.  The
rule of this file leads it back to what single steps do: to the state, to the value of a key, and to
a query under way.  `MapSteps` collects these obligations; an object that meets them behaves as a
map in every run.  Writes are of values of a given kind, those that fit, and are then answered as
written.
-/

namespace Calls

/-- The calls of a map. -/
inductive MapCall (K V Q : Type) where
  | write (k : K) (v : V)
  | query (q : Q) (k : K)

variable {T K V Q R S P A : Type}

/-! ## What a history says about a key -/

/-- All values that are written are of a kind. -/
def WritesOnly (Fits : V → Prop) (history : List (Event T (MapCall K V Q) R)) : Prop :=
  ∀ t k v, .invoke t (.write k v) ∈ history → Fits v

lemma WritesOnly.suffix {Fits : V → Prop} {history past : List (Event T (MapCall K V Q) R)}
    (h : WritesOnly Fits history) (hpast : past <:+ history) : WritesOnly Fits past :=
  fun t k v hmem => h t k v (hpast.subset hmem)

/-- A newer event of another thread is not the invocation of a call. -/
lemma split_history {e : Event T (MapCall K V Q) R} {t : T} {call : MapCall K V Q}
    {history during before : List (Event T (MapCall K V Q) R)} (he : e.thread ≠ t)
    (h : e :: history = during ++ .invoke t call :: before) :
    ∃ rest, during = e :: rest ∧ history = rest ++ .invoke t call :: before := by
  cases during with
  | nil =>
    obtain ⟨rfl, -⟩ := List.cons.inj h
    exact absurd rfl he
  | cons d rest =>
    obtain ⟨rfl, hrest⟩ := List.cons.inj h
    exact ⟨rest, rfl, hrest⟩

/-- The value of the write of a key that was the last to finish. -/
def latest [DecidableEq K] (empty : V) (k : K) : List (Event T (MapCall K V Q) R) → V
  | [] => empty
  | .invoke _ _ :: history => latest empty k history
  | .respond _ (.query _ _) _ :: history => latest empty k history
  | .respond _ (.write j v) _ :: history => if j = k then v else latest empty k history

variable [DecidableEq T]

/-- A thread is writing a key. -/
def Writing (history : List (Event T (MapCall K V Q) R)) (k : K) (t : T) : Prop :=
  ∃ v, pending history t = some (.write k v)

/-- At no time do two threads write one key. -/
def WritesApart (history : List (Event T (MapCall K V Q) R)) : Prop :=
  ∀ past, past <:+ history → ∀ k t u, Writing past k t → Writing past k u → t = u

/-- No write of a key is under way between two moments. -/
structure Quiet (k : K) (before during : List (Event T (MapCall K V Q) R)) : Prop where
  idle : ∀ t, ¬ Writing before k t
  calm : ∀ t v, .invoke t (.write k v) ∉ during

/-- Every write is answered as a write is, and every query that overlaps with no write of its key is
answered about the value of the last write. -/
structure BehavesAsMap [DecidableEq K] (empty : V) (written : R) (answer : Q → V → R)
    (history : List (Event T (MapCall K V Q) R)) : Prop where
  writes : ∀ t k v r, .respond t (.write k v) r ∈ history → r = written
  queries : ∀ later during before t q k r,
    history = later ++ .respond t (.query q k) r :: (during ++ .invoke t (.query q k) :: before) →
    (∀ e ∈ during, e.thread ≠ t) → Quiet k before during → r = answer q (latest empty k before)

section Histories

variable {history past : List (Event T (MapCall K V Q) R)}

lemma WritesApart.suffix (h : WritesApart history) (hpast : past <:+ history) :
    WritesApart past := fun _ hsuffix => h _ (hsuffix.trans hpast)

/-- When every key is written by one thread only, no two writes of one key overlap. -/
lemma writesApart_of_owner (owner : K → T)
    (h : ∀ t k v, .invoke t (.write k v) ∈ history → t = owner k) : WritesApart history := by
  rintro past hpast k t u ⟨v, ht⟩ ⟨w, hu⟩
  rw [h t k v (hpast.subset (mem_of_pending ht)), h u k w (hpast.subset (mem_of_pending hu))]

/-- As long as it is quiet, nobody writes the key and its last write stays the last one. -/
lemma Quiet.now [DecidableEq K] (empty : V) {k : K} {t : T} {q : Q}
    {before during : List (Event T (MapCall K V Q) R)} (h : Quiet k before during)
    (hproper : Proper (during ++ .invoke t (.query q k) :: before)) :
    (∀ u, ¬ Writing (during ++ .invoke t (.query q k) :: before) k u) ∧
      latest empty k (during ++ .invoke t (.query q k) :: before) = latest empty k before := by
  induction during with
  | nil =>
    refine ⟨fun u => ?_, rfl⟩
    rintro ⟨v, hv⟩
    rw [List.nil_append, pending] at hv
    split_ifs at hv
    · cases hv
    · exact h.idle u ⟨v, hv⟩
  | cons e during ih =>
    have hrest : Quiet k before during :=
      ⟨h.idle, fun u v hmem => h.calm u v (List.mem_cons_of_mem _ hmem)⟩
    cases e with
    | invoke w call =>
      obtain ⟨hidle, hlatest⟩ := ih hrest hproper.2
      refine ⟨fun u => ?_, hlatest⟩
      rintro ⟨v, hv⟩
      rw [List.cons_append, pending] at hv
      split_ifs at hv
      · obtain rfl := Option.some.inj hv
        exact h.calm w v List.mem_cons_self
      · exact hidle u ⟨v, hv⟩
    | respond w call r =>
      obtain ⟨hidle, hlatest⟩ := ih hrest hproper.2
      refine ⟨fun u => ?_, ?_⟩
      · rintro ⟨v, hv⟩
        rw [List.cons_append, pending] at hv
        split_ifs at hv
        exact hidle u ⟨v, hv⟩
      · cases call with
        | query => exact hlatest
        | write j v =>
          have hne : j ≠ k := by
            rintro rfl
            exact hidle w ⟨v, hproper.1⟩
          rw [List.cons_append, latest, if_neg hne, hlatest]

/-- A thread that is writing a key is one that the history says to be writing it. -/
lemma Recorded.writing {s : System T (MapCall K V Q) R S P} (hs : Recorded s) {t : T} {k : K}
    {v : V} {p : P} (h : s.threads t = some (.write k v, p)) : Writing s.history k t :=
  ⟨v, by rw [hs.2 t, h, Option.map_some]⟩

end Histories

/-! ## The rule -/

/-- What the steps of an object have to do.  `Global` holds of the shared state, `Local` of a call
under way; `Val` says which value the shared state has for a key; `Ready` says that a query under
way can only be answered about some value. -/
structure MapSteps (O : Object T (MapCall K V Q) R S P A) (written : R) (answer : Q → V → R)
    (Fits : V → Prop) (Global : S → Prop) (Local : S → T → MapCall K V Q → P → Prop)
    (Val : S → K → V → Prop) (Ready : S → T → Q → K → P → V → Prop) : Prop where
  local_start : ∀ s t call, (∀ k v, call = .write k v → Fits v) → Local s t call (O.start t call)
  global_step : ∀ s s' t a call p p', Global s → Local s t call p →
    O.step t a call p s = some (p', s') → Global s'
  local_step : ∀ s s' t a call p p', Global s → Local s t call p →
    O.step t a call p s = some (p', s') → Local s' t call p'
  local_frame : ∀ s s' t a call p p' u other pu, Local s t call p → u ≠ t →
    (∀ k v w, call = .write k v → other ≠ .write k w) → O.step t a call p s = some (p', s') →
    Local s u other pu → Local s' u other pu
  val_step : ∀ s s' t a call p p' k v, Local s t call p → O.step t a call p s = some (p', s') →
    (∀ w, call ≠ .write k w) → Val s k v → Val s' k v
  val_written : ∀ s t a k v p r, Local s t (.write k v) p →
    O.finish t a (.write k v) p s = some r → r = written ∧ Val s k v
  ready_start : ∀ s t q k v, Val s k v → Ready s t q k (O.start t (.query q k)) v
  ready_step : ∀ s s' t a q k p p' v, Local s t (.query q k) p →
    O.step t a (.query q k) p s = some (p', s') → Val s k v → Ready s t q k p v →
    Ready s' t q k p' v
  ready_frame : ∀ s s' t a call p p' u q k pu v, Local s t call p → u ≠ t →
    O.step t a call p s = some (p', s') → (∀ w, call ≠ .write k w) → Ready s u q k pu v →
    Ready s' u q k pu v
  ready_finish : ∀ s t a q k p v r, Ready s t q k p v →
    O.finish t a (.query q k) p s = some r → r = answer q v

/-- What holds after every run. -/
structure Kept [DecidableEq K] (empty : V) (written : R) (answer : Q → V → R) (Global : S → Prop)
    (Local : S → T → MapCall K V Q → P → Prop) (Val : S → K → V → Prop)
    (Ready : S → T → Q → K → P → V → Prop) (s : System T (MapCall K V Q) R S P) : Prop where
  shared : Global s.shared
  thread : ∀ t call p, s.threads t = some (call, p) → Local s.shared t call p
  val : ∀ k, (∀ t, ¬ Writing s.history k t) → Val s.shared k (latest empty k s.history)
  ready : ∀ t q k p during before, s.threads t = some (.query q k, p) →
    s.history = during ++ .invoke t (.query q k) :: before → (∀ e ∈ during, e.thread ≠ t) →
    Quiet k before during → Ready s.shared t q k p (latest empty k before)
  behaves : BehavesAsMap empty written answer s.history

section Rule

variable [DecidableEq K] {O : Object T (MapCall K V Q) R S P A} {written : R} {answer : Q → V → R}
  {Fits : V → Prop} {Global : S → Prop} {Local : S → T → MapCall K V Q → P → Prop}
  {Val : S → K → V → Prop} {Ready : S → T → Q → K → P → V → Prop} {empty : V}
  {s s' : System T (MapCall K V Q) R S P}

/-- While a query runs and its key is quiet, nobody writes the key, and the value is that of the
last write before the query. -/
lemma Kept.quiet (h : Kept empty written answer Global Local Val Ready s) (hs : Recorded s)
    {t : T} {q : Q} {k : K} {during before : List (Event T (MapCall K V Q) R)}
    (hhistory : s.history = during ++ .invoke t (.query q k) :: before)
    (hquiet : Quiet k before during) :
    (∀ u, ¬ Writing s.history k u) ∧ Val s.shared k (latest empty k before) := by
  have hproper := hs.1
  rw [hhistory] at hproper
  obtain ⟨hidle, hlatest⟩ := hquiet.now empty hproper
  rw [← hhistory] at hidle hlatest
  exact ⟨hidle, hlatest ▸ h.val k hidle⟩

/-- A call begins. -/
lemma Kept.invoke (hO : MapSteps O written answer Fits Global Local Val Ready)
    (h : Kept empty written answer Global Local Val Ready s) (hs : Recorded s) {t : T}
    {call : MapCall K V Q} (hnone : s.threads t = none)
    (hfits : ∀ k v, call = .write k v → Fits v) :
    Kept empty written answer Global Local Val Ready ⟨s.shared,
      Function.update s.threads t (some (call, O.start t call)), .invoke t call :: s.history⟩ := by
  have hpending : pending s.history t = none := by rw [hs.2 t, hnone, Option.map_none]
  refine ⟨h.shared, fun u c p hu => ?_, fun k hidle => ?_, ?_, ⟨?_, ?_⟩⟩
  · simp only at hu
    by_cases hut : u = t
    · obtain rfl := hut
      rw [Function.update_self, Option.some.injEq, Prod.mk.injEq] at hu
      obtain ⟨rfl, rfl⟩ := hu
      exact hO.local_start _ _ _ hfits
    · rw [Function.update_of_ne hut] at hu
      exact h.thread u c p hu
  · refine h.val k fun u hu => ?_
    obtain ⟨v, hv⟩ := hu
    have hne : u ≠ t := by
      rintro rfl
      rw [hpending] at hv
      cases hv
    exact hidle u ⟨v, by rw [pending, if_neg hne, hv]⟩
  · intro u q k p during before hu hhistory hduring hquiet
    simp only at hu hhistory
    by_cases hut : u = t
    · obtain rfl := hut
      rw [Function.update_self, Option.some.injEq, Prod.mk.injEq] at hu
      obtain ⟨rfl, rfl⟩ := hu
      -- the invocation is the newest event of the thread
      cases during with
      | nil =>
        obtain ⟨-, rfl⟩ := List.cons.inj hhistory
        exact hO.ready_start _ _ _ _ _ (h.val k hquiet.idle)
      | cons e rest =>
        obtain ⟨rfl, -⟩ := List.cons.inj hhistory
        exact absurd rfl (hduring _ List.mem_cons_self)
    · rw [Function.update_of_ne hut] at hu
      obtain ⟨rest, rfl, hrest⟩ := split_history (Ne.symm hut) hhistory
      exact h.ready u q k p rest before hu hrest (fun e he => hduring e (List.mem_cons_of_mem _ he))
        ⟨hquiet.idle, fun w v hmem => hquiet.calm w v (List.mem_cons_of_mem _ hmem)⟩
  · intro u k v r hmem
    exact h.behaves.writes u k v r (List.mem_of_ne_of_mem (by simp) hmem)
  · intro later during before u q k r hhistory
    cases later with
    | nil => cases (List.cons.inj hhistory).1
    | cons e later =>
      exact h.behaves.queries later during before u q k r (List.cons.inj hhistory).2

/-- A call takes a step. -/
lemma Kept.step (hO : MapSteps O written answer Fits Global Local Val Ready)
    (h : Kept empty written answer Global Local Val Ready s) (hs : Recorded s)
    (hapart : WritesApart s.history) {t : T} {a : A} {call : MapCall K V Q} {p p' : P} {shared : S}
    (hthread : s.threads t = some (call, p))
    (hstep : O.step t a call p s.shared = some (p', shared)) :
    Kept empty written answer Global Local Val Ready ⟨shared,
      Function.update s.threads t (some (call, p')), s.history⟩ := by
  have hother : ∀ k, (∀ u, ¬ Writing s.history k u) → ∀ w, call ≠ .write k w := by
    rintro k hidle w rfl
    exact hidle t (hs.writing hthread)
  have hlocal := h.thread t call p hthread
  refine ⟨hO.global_step _ _ _ _ _ _ _ h.shared hlocal hstep, fun u c pu hu => ?_,
    fun k hidle => ?_, ?_, h.behaves⟩
  · simp only at hu
    by_cases hut : u = t
    · obtain rfl := hut
      rw [Function.update_self, Option.some.injEq, Prod.mk.injEq] at hu
      obtain ⟨rfl, rfl⟩ := hu
      exact hO.local_step _ _ _ _ _ _ _ h.shared hlocal hstep
    · rw [Function.update_of_ne hut] at hu
      refine hO.local_frame _ _ _ _ _ _ _ _ _ _ hlocal hut ?_ hstep (h.thread u c pu hu)
      rintro k v w rfl rfl
      exact hut (hapart _ List.suffix_rfl k u t (hs.writing hu) (hs.writing hthread))
  · exact hO.val_step _ _ _ _ _ _ _ _ _ hlocal hstep (hother k hidle) (h.val k hidle)
  · intro u q k pu during before hu hhistory hduring hquiet
    obtain ⟨hidle, hval⟩ := h.quiet hs hhistory hquiet
    simp only at hu hhistory
    by_cases hut : u = t
    · obtain rfl := hut
      rw [Function.update_self, Option.some.injEq, Prod.mk.injEq] at hu
      obtain ⟨rfl, rfl⟩ := hu
      exact hO.ready_step _ _ _ _ _ _ _ _ _ hlocal hstep hval
        (h.ready u q k p during before hthread hhistory hduring hquiet)
    · rw [Function.update_of_ne hut] at hu
      exact hO.ready_frame _ _ _ _ _ _ _ _ _ _ _ _ hlocal hut hstep
        (hother k hidle) (h.ready u q k pu during before hu hhistory hduring hquiet)

/-- A call returns. -/
lemma Kept.respond (hO : MapSteps O written answer Fits Global Local Val Ready)
    (h : Kept empty written answer Global Local Val Ready s) (hs : Recorded s) {t : T} {a : A}
    {call : MapCall K V Q} {p : P} {r : R} (hthread : s.threads t = some (call, p))
    (hfinish : O.finish t a call p s.shared = some r) :
    Kept empty written answer Global Local Val Ready ⟨s.shared, Function.update s.threads t none,
      .respond t call r :: s.history⟩ := by
  have hpending : pending s.history t = some call := by rw [hs.2 t, hthread, Option.map_some]
  have hlocal := h.thread t call p hthread
  refine ⟨h.shared, fun u c pu hu => ?_, fun k hidle => ?_, ?_, ⟨?_, ?_⟩⟩
  · simp only at hu
    by_cases hut : u = t
    · obtain rfl := hut
      rw [Function.update_self] at hu
      cases hu
    · rw [Function.update_of_ne hut] at hu
      exact h.thread u c pu hu
  · -- before the response only this thread may have been writing the key
    have hold : (∀ w, call ≠ .write k w) → Val s.shared k (latest empty k s.history) := by
      intro hcall
      refine h.val k fun u hu => ?_
      obtain ⟨v, hv⟩ := hu
      have hne : u ≠ t := by
        rintro rfl
        exact hcall v (Option.some.inj (hpending.symm.trans hv))
      exact hidle u ⟨v, by rw [pending, if_neg hne, hv]⟩
    cases call with
    | query q j => exact hold (fun w => by simp)
    | write j v =>
      by_cases hjk : j = k
      · obtain rfl := hjk
        simp only [latest, if_true]
        exact (hO.val_written _ _ _ _ _ _ _ hlocal hfinish).2
      · simp only [latest, if_neg hjk]
        exact hold fun w hw => hjk (MapCall.write.inj hw).1
  · intro u q k pu during before hu hhistory hduring hquiet
    simp only at hu hhistory
    have hut : u ≠ t := by
      rintro rfl
      rw [Function.update_self] at hu
      cases hu
    rw [Function.update_of_ne hut] at hu
    obtain ⟨rest, rfl, hrest⟩ := split_history (Ne.symm hut) hhistory
    exact h.ready u q k pu rest before hu hrest (fun e he => hduring e (List.mem_cons_of_mem _ he))
      ⟨hquiet.idle, fun w v hmem => hquiet.calm w v (List.mem_cons_of_mem _ hmem)⟩
  · intro u k v r' hmem
    rcases List.mem_cons.mp hmem with heq | hmem
    · obtain ⟨rfl, rfl, rfl⟩ := Event.respond.inj heq
      exact (hO.val_written _ _ _ _ _ _ _ hlocal hfinish).1
    · exact h.behaves.writes u k v r' hmem
  · intro later during before u q k r' hhistory hduring hquiet
    cases later with
    | nil =>
      obtain ⟨heq, hrest⟩ := List.cons.inj hhistory
      obtain ⟨rfl, rfl, rfl⟩ := Event.respond.inj heq
      exact hO.ready_finish _ _ _ _ _ _ _ _
        (h.ready t q k p during before hthread hrest hduring hquiet) hfinish
    | cons e later =>
      exact h.behaves.queries later during before u q k r' (List.cons.inj hhistory).2 hduring hquiet

/-- An object whose steps do what they have to do behaves as a map in every run in which no two
writes of one key overlap. -/
theorem MapSteps.behaves (hO : MapSteps O written answer Fits Global Local Val Ready) {shared : S}
    (hshared : Global shared) (hval : ∀ k, Val shared k empty)
    {actions : List (Action T (MapCall K V Q) A)}
    (hrun : (System.start shared).run O actions = some s) (hapart : WritesApart s.history)
    (hfits : WritesOnly Fits s.history) : BehavesAsMap empty written answer s.history := by
  have hstart : Kept empty written answer Global Local Val Ready
      (System.start shared : System T (MapCall K V Q) R S P) := by
    refine ⟨hshared, ?_, fun k _ => hval k, ?_, ⟨?_, ?_⟩⟩
    · intro t call p ht
      cases ht
    · intro t q k p during before ht
      cases ht
    · intro t k v r hmem
      cases hmem
    · intro later during before t q k r hhistory
      exact absurd hhistory.symm (by simp [System.start])
  have hkept : Recorded s ∧ (WritesApart s.history → WritesOnly Fits s.history →
      Kept empty written answer Global Local Val Ready s) := by
    refine run_induction (J := fun s => Recorded s ∧ (WritesApart s.history →
      WritesOnly Fits s.history → Kept empty written answer Global Local Val Ready s))
      ⟨recorded_start shared, fun _ _ => hstart⟩ ?_ hrun
    rintro s s' ⟨hs, hkept⟩ hacts
    refine ⟨hs.acts hacts, fun hapart hfits => ?_⟩
    have h := hkept (hapart.suffix hacts.history_suffix) (hfits.suffix hacts.history_suffix)
    cases hacts with
    | invoke t call hnone =>
      refine h.invoke hO hs hnone fun k v hcall => ?_
      exact hfits t k v (hcall ▸ List.mem_cons_self)
    | step t a call p p' shared hthread hstep => exact h.step hO hs hapart hthread hstep
    | respond t a call p r hthread hfinish => exact h.respond hO hs hthread hfinish
  exact (hkept.2 hapart hfits).behaves

end Rule

end Calls
