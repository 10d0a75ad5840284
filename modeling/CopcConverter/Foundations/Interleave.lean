import CopcConverter.Foundations.IterOrder

/-!
# Interleaved jobs over a shared store

A job reads and writes a shared store one place at a time.  Jobs that run side by side are
interleaved at this granularity: a schedule says which job makes the next access.  An interleaving
of jobs is a job again, so that jobs may run jobs of their own side by side.

A job is confined to a set of places when it accesses no other one, whatever it reads.  Jobs
confined to disjoint sets do not see each other: every interleaving of them leaves what running
them one after the other leaves, in any order.
-/

namespace Interleave

/-- What a job does to a store with values `V` at places `κ`: one access after the other, up to a
result or an error. -/
inductive Job (κ V ε ρ : Type) where
  | done (r : Except ε ρ)
  | read (k : κ) (next : V → Job κ V ε ρ)
  | write (k : κ) (v : V) (next : Job κ V ε ρ)

namespace Job

variable {κ V ε ρ ρ' : Type}

/-- The job that only returns a result. -/
def pure (r : ρ) : Job κ V ε ρ := done (.ok r)

/-- Go on with the result of a job. -/
def bind : Job κ V ε ρ → (ρ → Job κ V ε ρ') → Job κ V ε ρ'
  | done (.ok r), f => f r
  | done (.error e), _ => done (.error e)
  | read k next, f => read k fun v => (next v).bind f
  | write k v next, f => write k v (next.bind f)

/-- One job after the other. -/
def sequence : List (Job κ V ε ρ) → Job κ V ε (List ρ)
  | [] => pure []
  | t :: ts => t.bind fun r => (sequence ts).bind fun rs => pure (r :: rs)

/-- Jobs side by side: the schedule lists, access by access, the number of the job that goes on.
A job that has ended is skipped, and what is left when the schedule ends is run in sequence. -/
def interleave : List ℕ → List (Job κ V ε ρ) → Job κ V ε (List ρ)
  | [], ts => sequence ts
  | i :: schedule, ts =>
    match ts[i]? with
    | some (read k next) => read k fun v => interleave schedule (ts.set i (next v))
    | some (write k v next) => write k v (interleave schedule (ts.set i next))
    | _ => interleave schedule ts

/-! ## Running -/

section Run

variable [DecidableEq κ]

/-- Run a job on a store. -/
def run : Job κ V ε ρ → (κ → V) → Except ε ((κ → V) × ρ)
  | done r, s => r.map fun r => (s, r)
  | read k next, s => (next (s k)).run s
  | write k v next, s => next.run (Function.update s k v)

@[simp] lemma run_pure (r : ρ) (s : κ → V) : (pure r : Job κ V ε ρ).run s = .ok (s, r) := rfl

@[simp] lemma run_read (k : κ) (next : V → Job κ V ε ρ) (s : κ → V) :
    (read k next).run s = (next (s k)).run s := rfl

@[simp] lemma run_write (k : κ) (v : V) (next : Job κ V ε ρ) (s : κ → V) :
    (write k v next).run s = next.run (Function.update s k v) := rfl

lemma run_bind (t : Job κ V ε ρ) (f : ρ → Job κ V ε ρ') (s : κ → V) :
    (t.bind f).run s = (t.run s).bind fun x => (f x.2).run x.1 := by
  induction t generalizing s with
  | done r => cases r <;> rfl
  | read k next ih => exact ih (s k) s
  | write k v next ih => exact ih _

/-- Going on after a job that ends well. -/
lemma run_bind_ok {t : Job κ V ε ρ} {f : ρ → Job κ V ε ρ'} {s s' : κ → V} {r : ρ}
    (h : t.run s = .ok (s', r)) : (t.bind f).run s = (f r).run s' := by
  rw [run_bind, h]
  rfl

/-- Jobs that run alike, with continuations that run alike on what they return. -/
lemma run_bind_congr {t u : Job κ V ε ρ} {f g : ρ → Job κ V ε ρ'} {s : κ → V}
    (h : t.run s = u.run s)
    (hfg : ∀ x, u.run s = .ok x → (f x.2).run x.1 = (g x.2).run x.1) :
    (t.bind f).run s = (u.bind g).run s := by
  rw [run_bind, run_bind, h]
  cases hu : u.run s with
  | error e => rfl
  | ok x => exact hfg x hu

end Run

/-! ## Accesses -/

/-- A job accesses a place, for some values that it reads. -/
def Touches (k : κ) : Job κ V ε ρ → Prop
  | done _ => False
  | read j next => j = k ∨ ∃ v, (next v).Touches k
  | write j _ next => j = k ∨ next.Touches k

/-- Whatever a job reads, it accesses only some places, and returns only some results. -/
def Confined (fp : κ → Prop) (Q : ρ → Prop) : Job κ V ε ρ → Prop
  | done r => ∀ x, r = .ok x → Q x
  | read k next => fp k ∧ ∀ v, (next v).Confined fp Q
  | write k _ next => fp k ∧ next.Confined fp Q

namespace Confined

variable {fp fp' : κ → Prop} {Q Q' : ρ → Prop} {R : ρ' → Prop}

lemma pure {r : ρ} (h : Q r) : (Job.pure r : Job κ V ε ρ).Confined fp Q := by
  intro x hx
  rwa [← Except.ok.inj hx]

lemma mono {t : Job κ V ε ρ} (h : t.Confined fp Q) (hfp : ∀ k, fp k → fp' k)
    (hQ : ∀ r, Q r → Q' r) : t.Confined fp' Q' := by
  induction t with
  | done r => exact fun x hx => hQ x (h x hx)
  | read k next ih => exact ⟨hfp k h.1, fun v => ih v (h.2 v)⟩
  | write k v next ih => exact ⟨hfp k h.1, ih h.2⟩

lemma bind {t : Job κ V ε ρ} {f : ρ → Job κ V ε ρ'} (h : t.Confined fp Q)
    (hf : ∀ r, Q r → (f r).Confined fp R) : (t.bind f).Confined fp R := by
  induction t with
  | done r =>
    cases r with
    | error e => exact fun x hx => nomatch hx
    | ok r => exact hf r (h r rfl)
  | read k next ih => exact ⟨h.1, fun v => ih v (h.2 v)⟩
  | write k v next ih => exact ⟨h.1, ih h.2⟩

/-- A job goes on in the same way with continuations that agree on its results. -/
lemma bind_congr {t : Job κ V ε ρ} {f g : ρ → Job κ V ε ρ'} (h : t.Confined fp Q)
    (hfg : ∀ r, Q r → f r = g r) : t.bind f = t.bind g := by
  induction t with
  | done r =>
    cases r with
    | error e => rfl
    | ok r => exact hfg r (h r rfl)
  | read k next ih => exact congrArg (read k) (funext fun v => ih v (h.2 v))
  | write k v next ih => exact congrArg (write k v) (ih h.2)

/-- A confined job accesses no other place. -/
lemma of_touches {t : Job κ V ε ρ} (h : t.Confined fp Q) {k : κ} (hk : t.Touches k) : fp k := by
  induction t with
  | done r => cases hk
  | read j next ih =>
    rcases hk with rfl | ⟨v, hv⟩
    · exact h.1
    · exact ih v (h.2 v) hv
  | write j v next ih =>
    rcases hk with rfl | hk
    · exact h.1
    · exact ih h.2 hk

lemma sequence {ts : List (Job κ V ε ρ)} (h : ∀ t ∈ ts, t.Confined fp Q) :
    (Job.sequence ts).Confined fp fun rs => ∀ r ∈ rs, Q r := by
  induction ts with
  | nil => exact pure fun r hr => by cases hr
  | cons t ts ih =>
    refine (h t List.mem_cons_self).bind fun r hr => ?_
    refine (ih fun u hu => h u (List.mem_cons_of_mem _ hu)).bind fun rs hrs => pure ?_
    intro x hx
    rcases List.mem_cons.mp hx with rfl | hx
    · exact hr
    · exact hrs x hx

/-- An interleaving of confined jobs is confined. -/
lemma interleave {ts : List (Job κ V ε ρ)} (h : ∀ t ∈ ts, t.Confined fp Q)
    (schedule : List ℕ) :
    (Job.interleave schedule ts).Confined fp fun rs => ∀ r ∈ rs, Q r := by
  induction schedule generalizing ts with
  | nil => exact sequence h
  | cons i schedule ih =>
    have hset : ∀ t : Job κ V ε ρ, t.Confined fp Q → ∀ u ∈ ts.set i t, u.Confined fp Q := by
      intro t ht u hu
      rcases List.mem_or_eq_of_mem_set hu with hu | rfl
      · exact h u hu
      · exact ht
    rw [Job.interleave]
    split
    · next k next hi =>
      have ht := h _ (List.mem_of_getElem? hi)
      exact ⟨ht.1, fun v => ih (hset _ (ht.2 v))⟩
    · next k v next hi =>
      have ht := h _ (List.mem_of_getElem? hi)
      exact ⟨ht.1, ih (hset _ ht.2)⟩
    · exact ih h

end Confined

/-- A run of a confined job returns one of its results. -/
lemma Confined.of_run [DecidableEq κ] {fp : κ → Prop} {Q : ρ → Prop} {t : Job κ V ε ρ}
    (h : t.Confined fp Q) {s : κ → V} {x : (κ → V) × ρ} (hrun : t.run s = .ok x) : Q x.2 := by
  induction t generalizing s with
  | done r =>
    cases r with
    | error e => cases hrun
    | ok r =>
      obtain rfl := Except.ok.inj hrun
      exact h r rfl
  | read k next ih => exact ih (s k) (h.2 _) hrun
  | write k v next ih => exact ih h.2 hrun

/-! ## Errors -/

/-- Whatever a job reads, it ends in errors of one kind only. -/
def FailsOnly (E : ε → Prop) : Job κ V ε ρ → Prop
  | done r => ∀ e, r = .error e → E e
  | read _ next => ∀ v, (next v).FailsOnly E
  | write _ _ next => next.FailsOnly E

namespace FailsOnly

variable {E : ε → Prop}

lemma pure (r : ρ) : (Job.pure r : Job κ V ε ρ).FailsOnly E := fun _ he => nomatch he

lemma write {k : κ} {v : V} {next : Job κ V ε ρ} (h : next.FailsOnly E) :
    (Job.write k v next).FailsOnly E := h

lemma bind {t : Job κ V ε ρ} {f : ρ → Job κ V ε ρ'} (h : t.FailsOnly E)
    (hf : ∀ r, (f r).FailsOnly E) : (t.bind f).FailsOnly E := by
  induction t with
  | done r =>
    cases r with
    | error e => exact fun e' he => h e' (by cases he; rfl)
    | ok r => exact hf r
  | read k next ih => exact fun v => ih v (h v)
  | write k v next ih => exact ih h

lemma sequence {ts : List (Job κ V ε ρ)} (h : ∀ t ∈ ts, t.FailsOnly E) :
    (Job.sequence ts).FailsOnly E := by
  induction ts with
  | nil => exact pure _
  | cons t ts ih =>
    refine (h t List.mem_cons_self).bind fun r => ?_
    exact (ih fun u hu => h u (List.mem_cons_of_mem _ hu)).bind fun rs => pure _

lemma interleave {ts : List (Job κ V ε ρ)} (h : ∀ t ∈ ts, t.FailsOnly E) (schedule : List ℕ) :
    (Job.interleave schedule ts).FailsOnly E := by
  induction schedule generalizing ts with
  | nil => exact sequence h
  | cons i schedule ih =>
    have hset : ∀ t : Job κ V ε ρ, t.FailsOnly E → ∀ u ∈ ts.set i t, u.FailsOnly E := by
      intro t ht u hu
      rcases List.mem_or_eq_of_mem_set hu with hu | rfl
      · exact h u hu
      · exact ht
    rw [Job.interleave]
    split
    · next k next hi =>
      have ht : (Job.read k next).FailsOnly E := h _ (List.mem_of_getElem? hi)
      exact fun v => ih (hset _ (ht v))
    · next k v next hi =>
      have ht : (Job.write k v next).FailsOnly E := h _ (List.mem_of_getElem? hi)
      exact write (ih (hset next ht))
    · exact ih h

/-- A run that fails fails in this way. -/
lemma of_run [DecidableEq κ] {t : Job κ V ε ρ} (h : t.FailsOnly E) {s : κ → V} {e : ε}
    (hrun : t.run s = .error e) : E e := by
  induction t generalizing s with
  | done r =>
    cases r with
    | error e' => exact h e (by cases hrun; rfl)
    | ok r => cases hrun
  | read k next ih => exact ih (s k) (h _) hrun
  | write k v next ih => exact ih h hrun

end FailsOnly

/-! ## Jobs that do not see each other -/

/-- Two jobs access no place in common. -/
def Apart (t u : Job κ V ε ρ) : Prop := ∀ k, t.Touches k → ¬ u.Touches k

lemma Apart.symm {t u : Job κ V ε ρ} (h : Apart t u) : Apart u t := fun k hu ht => h k ht hu

/-- Jobs that are confined to disjoint sets are apart. -/
lemma apart_of_confined {t u : Job κ V ε ρ} {fp fp' : κ → Prop} {Q Q' : ρ → Prop}
    (ht : t.Confined fp Q) (hu : u.Confined fp' Q') (h : ∀ k, fp k → ¬ fp' k) : Apart t u :=
  fun k hkt hku => h k (ht.of_touches hkt) (hu.of_touches hku)

/-- Numbered jobs of which any two are apart. -/
lemma pairwise_mapIdx {α : Type} {prog : ℕ → α → Job κ V ε ρ} {tasks : List α}
    (h : ∀ i j a c, i ≠ j → tasks[i]? = some a → tasks[j]? = some c →
      Apart (prog i a) (prog j c)) : (tasks.mapIdx prog).Pairwise Apart := by
  refine List.pairwise_iff_getElem.mpr fun i j hi hj hij => ?_
  rw [List.length_mapIdx] at hi hj
  rw [List.getElem_mapIdx, List.getElem_mapIdx]
  exact h i j _ _ hij.ne (List.getElem?_eq_getElem hi) (List.getElem?_eq_getElem hj)

/-- A job that goes on accesses no more places than before. -/
lemma pairwise_set {ts : List (Job κ V ε ρ)} (h : ts.Pairwise Apart) {i : ℕ}
    {t t' : Job κ V ε ρ} (hi : ts[i]? = some t) (hsub : ∀ k, t'.Touches k → t.Touches k) :
    (ts.set i t').Pairwise Apart := by
  induction ts generalizing i with
  | nil => exact List.Pairwise.nil
  | cons u ts ih =>
    obtain ⟨hu, hts⟩ := List.pairwise_cons.mp h
    cases i with
    | zero =>
      obtain rfl := Option.some.inj hi
      exact List.pairwise_cons.mpr ⟨fun v hv k hk => hu v hv k (hsub k hk), hts⟩
    | succ i =>
      have hi : ts[i]? = some t := hi
      refine List.pairwise_cons.mpr ⟨fun v hv => ?_, ih hts hi⟩
      rcases List.mem_or_eq_of_mem_set hv with hv | rfl
      · exact hu v hv
      · exact fun k hk hv => hu t (List.mem_of_getElem? hi) k hk (hsub k hv)

section Run

variable [DecidableEq κ]

/-- A job that does not access a place leaves it alone. -/
lemma run_frame {t : Job κ V ε ρ} {k : κ} (h : ¬ t.Touches k) {s s' : κ → V} {r : ρ}
    (hrun : t.run s = .ok (s', r)) : s' k = s k := by
  induction t generalizing s with
  | done x =>
    cases x with
    | error e => cases hrun
    | ok x =>
      cases hrun
      rfl
  | read j next ih =>
    obtain ⟨-, hnext⟩ := not_or.mp h
    exact ih (s j) (fun hk => hnext ⟨s j, hk⟩) hrun
  | write j v next ih =>
    obtain ⟨hj, hnext⟩ := not_or.mp h
    rw [ih hnext hrun, Function.update_of_ne (Ne.symm hj)]

/-- What stands at a place that a job does not access makes no difference to it. -/
lemma run_update {t : Job κ V ε ρ} {k : κ} (h : ¬ t.Touches k) (s : κ → V) (v : V) :
    t.run (Function.update s k v) =
      (t.run s).map fun x => (Function.update x.1 k v, x.2) := by
  induction t generalizing s with
  | done x => cases x <;> rfl
  | read j next ih =>
    obtain ⟨hj, hnext⟩ := not_or.mp h
    rw [run_read, run_read, Function.update_of_ne hj]
    exact ih (s j) (fun hk => hnext ⟨s j, hk⟩) s
  | write j w next ih =>
    obtain ⟨hj, hnext⟩ := not_or.mp h
    rw [run_write, run_write, Function.update_comm (Ne.symm hj)]
    exact ih hnext _

/-- A job among others may go first with a read. -/
lemma run_sequence_read {ts : List (Job κ V ε ρ)} (h : ts.Pairwise Apart) {i : ℕ} {k : κ}
    {next : V → Job κ V ε ρ} (hi : ts[i]? = some (read k next)) (s : κ → V) :
    (sequence ts).run s = (sequence (ts.set i (next (s k)))).run s := by
  induction ts generalizing i s with
  | nil => cases hi
  | cons u ts ih =>
    obtain ⟨hu, hts⟩ := List.pairwise_cons.mp h
    cases i with
    | zero =>
      obtain rfl := Option.some.inj hi
      rfl
    | succ i =>
      have hi : ts[i]? = some (read k next) := hi
      have hk : ¬ u.Touches k := fun hk => hu _ (List.mem_of_getElem? hi) k hk (Or.inl rfl)
      rw [List.set_cons_succ, sequence, sequence, run_bind, run_bind]
      cases hrun : u.run s with
      | error e => rfl
      | ok x =>
        have hsame := run_frame hk hrun
        change ((sequence ts).bind _).run x.1 = ((sequence (ts.set i _)).bind _).run x.1
        rw [run_bind, run_bind, ih hts hi x.1, hsame]

/-- A job among others may go first with a write. -/
lemma run_sequence_write {ts : List (Job κ V ε ρ)} (h : ts.Pairwise Apart) {i : ℕ} {k : κ} {v : V}
    {next : Job κ V ε ρ} (hi : ts[i]? = some (write k v next)) (s : κ → V) :
    (sequence ts).run s = (sequence (ts.set i next)).run (Function.update s k v) := by
  induction ts generalizing i s with
  | nil => cases hi
  | cons u ts ih =>
    obtain ⟨hu, hts⟩ := List.pairwise_cons.mp h
    cases i with
    | zero =>
      obtain rfl := Option.some.inj hi
      rfl
    | succ i =>
      have hi : ts[i]? = some (write k v next) := hi
      have hk : ¬ u.Touches k := fun hk => hu _ (List.mem_of_getElem? hi) k hk (Or.inl rfl)
      rw [List.set_cons_succ, sequence, sequence, run_bind, run_bind, run_update hk]
      cases hrun : u.run s with
      | error e => rfl
      | ok x =>
        change ((sequence ts).bind _).run x.1 =
          ((sequence (ts.set i next)).bind _).run (Function.update x.1 k v)
        rw [run_bind, run_bind, ih hts hi x.1]

/-- **Jobs that are apart do not interfere**: every interleaving leaves what running them one after
the other leaves, and returns the same results. -/
theorem run_interleave {ts : List (Job κ V ε ρ)} (h : ts.Pairwise Apart) (schedule : List ℕ)
    (s : κ → V) : (interleave schedule ts).run s = (sequence ts).run s := by
  induction schedule generalizing ts s with
  | nil => rfl
  | cons i schedule ih =>
    rw [interleave]
    split
    · next k next hi =>
      rw [run_sequence_read h hi, run_read]
      exact ih (pairwise_set h hi fun j hj => Or.inr ⟨s k, hj⟩) s
    · next k v next hi =>
      rw [run_sequence_write h hi, run_write]
      exact ih (pairwise_set h hi fun j hj => Or.inr hj) _
    · exact ih h s

/-- A sequence of jobs that each update the store folds the updates. -/
lemma run_sequence_map {α : Type} {J : α → Job κ V ε ρ} {f : (κ → V) → α → κ → V}
    {g : (κ → V) → α → ρ} (h : ∀ a s, (J a).run s = .ok (f s a, g s a)) (L : List α)
    (s : κ → V) : ∃ rs, (sequence (L.map J)).run s = .ok (L.foldl f s, rs) := by
  induction L generalizing s with
  | nil => exact ⟨[], rfl⟩
  | cons a L ih =>
    obtain ⟨rs, hrs⟩ := ih (f s a)
    refine ⟨g s a :: rs, ?_⟩
    rw [List.map_cons, sequence, run_bind_ok (h a s), run_bind_ok hrs]
    rfl

/-- A sequence of jobs that each leave the store as it is returns their results. -/
lemma run_sequence_const {α : Type} {job : α → Job κ V ε ρ} {s : κ → V} {result : α → ρ}
    (h : ∀ a, (job a).run s = .ok (s, result a)) (L : List α) :
    (sequence (L.map job)).run s = .ok (s, L.map result) := by
  induction L with
  | nil => rfl
  | cons a L ih =>
    rw [List.map_cons, sequence, run_bind_ok (h a), run_bind_ok ih]
    rfl

/-- A sequence that goes on after a sequence. -/
lemma run_sequence_append {ts us : List (Job κ V ε ρ)} {s s' : κ → V} {rs : List ρ}
    (h : (sequence ts).run s = .ok (s', rs)) :
    (sequence (ts ++ us)).run s = ((sequence us).run s').map fun x => (x.1, rs ++ x.2) := by
  induction ts generalizing s rs with
  | nil =>
    obtain ⟨rfl, rfl⟩ := Prod.mk.inj (Except.ok.inj h)
    rw [List.nil_append]
    cases (sequence us).run s <;> rfl
  | cons t ts ih =>
    rw [sequence, run_bind] at h
    rw [List.cons_append, sequence, run_bind]
    cases ht : t.run s with
    | error e =>
      rw [ht] at h
      cases h
    | ok x =>
      rw [ht] at h
      change ((sequence ts).bind _).run x.1 = _ at h
      change ((sequence (ts ++ us)).bind _).run x.1 = _
      rw [run_bind] at h ⊢
      cases hts : (sequence ts).run x.1 with
      | error e =>
        rw [hts] at h
        cases h
      | ok y =>
        rw [hts] at h
        obtain ⟨rfl, rfl⟩ := Prod.mk.inj (Except.ok.inj h)
        rw [ih hts]
        cases (sequence us).run y.1 <;> rfl

/-- A sequence of jobs of which only one does something. -/
lemma run_sequence_single {t : Job κ V ε ρ} {r₀ r : ρ} {s s' : κ → V} (h : t.run s = .ok (s', r))
    (k j : ℕ) : (sequence (List.replicate k (pure r₀) ++ t :: List.replicate j (pure r₀))).run s =
      .ok (s', List.replicate k r₀ ++ r :: List.replicate j r₀) := by
  have hidle : ∀ (n : ℕ) (s : κ → V), (sequence (List.replicate n (pure r₀ : Job κ V ε ρ))).run s =
      .ok (s, List.replicate n r₀) := fun n s => by
    induction n with
    | zero => rfl
    | succ n ih =>
      rw [List.replicate_succ, sequence, run_bind_ok (run_pure r₀ s), run_bind_ok ih]
      rfl
  rw [run_sequence_append (hidle k s), sequence, run_bind_ok h, run_bind_ok (hidle j s')]
  rfl

/-- A sequence of jobs that cannot fail cannot fail. -/
lemma run_sequence_ok {ts : List (Job κ V ε ρ)} (h : ∀ t ∈ ts, ∀ s, ∃ x, t.run s = .ok x)
    (s : κ → V) : ∃ x, (sequence ts).run s = .ok x := by
  induction ts generalizing s with
  | nil => exact ⟨(s, []), rfl⟩
  | cons t ts ih =>
    obtain ⟨x, hx⟩ := h t List.mem_cons_self s
    obtain ⟨y, hy⟩ := ih (fun u hu => h u (List.mem_cons_of_mem _ hu)) x.1
    exact ⟨(y.1, x.2 :: y.2), (run_bind_ok hx).trans (run_bind_ok hy)⟩

/-- Two jobs that are apart may change places. -/
lemma run_swap {t u : Job κ V ε ρ} (h : Apart t u) {s s₁ s₂ : κ → V} {r r' : ρ}
    (ht : t.run s = .ok (s₁, r)) (hu : u.run s₁ = .ok (s₂, r')) :
    ∃ s', u.run s = .ok (s', r') ∧ t.run s' = .ok (s₂, r) := by
  induction t generalizing s with
  | done x =>
    cases x with
    | error e => cases ht
    | ok x =>
      cases ht
      exact ⟨s₂, hu, rfl⟩
  | read k next ih =>
    obtain ⟨s', hu', ht'⟩ := ih (s k) (fun j hj => h j (Or.inr ⟨s k, hj⟩)) ht
    refine ⟨s', hu', ?_⟩
    rw [run_read, run_frame (h k (Or.inl rfl)) hu', ht']
  | write k v next ih =>
    obtain ⟨s', hu', ht'⟩ := ih (fun j hj => h j (Or.inr hj)) ht
    rw [run_update (h k (Or.inl rfl))] at hu'
    cases hx : u.run s with
    | error e =>
      rw [hx] at hu'
      cases hu'
    | ok x =>
      rw [hx] at hu'
      cases hu'
      refine ⟨x.1, rfl, ?_⟩
      rwa [run_write]

end Run

end Job

/-! ## Any order -/

section Order

variable {α σ κ V ε ρ : Type}

/-- The order of a fold does not matter when its steps may change places two by two. -/
lemma foldlM_perm {g : σ → α → Except ε σ} {L L' : List α} (hp : L.Perm L')
    (h : L.Pairwise fun a b => ∀ s s', (g s a >>= fun t => g t b) = .ok s' ↔
      (g s b >>= fun t => g t a) = .ok s') (s s' : σ) :
    L.foldlM g s = .ok s' ↔ L'.foldlM g s = .ok s' := by
  have hsymm : ∀ {a b : α}, (∀ s s', (g s a >>= fun t => g t b) = .ok s' ↔
      (g s b >>= fun t => g t a) = .ok s') → ∀ s s', (g s b >>= fun t => g t a) = .ok s' ↔
        (g s a >>= fun t => g t b) = .ok s' := fun hab s s' => (hab s s').symm
  induction hp generalizing s with
  | nil => exact Iff.rfl
  | cons a _ ih =>
    rw [List.foldlM_cons, List.foldlM_cons]
    cases g s a with
    | error e => exact Iff.rfl
    | ok t => exact ih (List.pairwise_cons.mp h).2 t
  | swap a b l =>
    have hab := (List.pairwise_cons.mp h).1 a List.mem_cons_self s
    rw [List.foldlM_cons, List.foldlM_cons]
    simp only [List.foldlM_cons]
    rw [← bind_assoc, ← bind_assoc]
    cases hba : (g s b >>= fun t => g t a) with
    | ok t => rw [(hab t).mp hba]
    | error e =>
      cases hab' : (g s a >>= fun t => g t b) with
      | ok t =>
        rw [(hab t).mpr hab'] at hba
        cases hba
      | error e' =>
        constructor
        · intro h
          cases h
        · intro h
          cases h
  | trans hp₁ hp₂ ih₁ ih₂ =>
    exact (ih₁ h s).trans (ih₂ ((hp₁.pairwise_iff hsymm).mp h) s)

variable [DecidableEq κ]

/-- Running jobs one after the other in a list is running their sequence. -/
lemma foldlM_runTask_zipIdx (prog : ℕ → α → Job κ V ε ρ) (tasks : List α) (n : ℕ) (s : κ → V)
    (res : ℕ → Option ρ) :
    (tasks.zipIdx n).foldlM (IterOrder.runTask fun i a s => (prog i a).run s) (s, res) =
      ((Job.sequence ((tasks.zipIdx n).map fun t => prog t.2 t.1)).run s).map fun x =>
        (x.1, fun i => if n ≤ i ∧ i < n + tasks.length then x.2[i - n]? else res i) := by
  induction tasks generalizing n s res with
  | nil =>
    have hres : (fun i => if n ≤ i ∧ i < n + 0 then ([] : List ρ)[i - n]? else res i) = res := by
      funext i
      exact if_neg (by omega)
    rw [List.zipIdx_nil, List.foldlM_nil, List.map_nil, Job.sequence, List.length_nil]
    change _ = Except.ok (s, fun i => if n ≤ i ∧ i < n + 0 then ([] : List ρ)[i - n]? else res i)
    rw [hres]
    rfl
  | cons a tasks ih =>
    rw [List.zipIdx_cons, List.foldlM_cons, List.map_cons, Job.sequence, Job.run_bind]
    cases hrun : (prog n a).run s with
    | error e =>
      rw [IterOrder.runTask, hrun]
      rfl
    | ok x =>
      rw [IterOrder.runTask, hrun]
      change (tasks.zipIdx (n + 1)).foldlM _ (x.1, Function.update res n (some x.2)) =
        (((Job.sequence ((tasks.zipIdx (n + 1)).map fun t => prog t.2 t.1)).bind
          fun rs => Job.pure (x.2 :: rs)).run x.1).map _
      rw [ih, Job.run_bind]
      cases (Job.sequence ((tasks.zipIdx (n + 1)).map fun t => prog t.2 t.1)).run x.1 with
      | error e => rfl
      | ok y =>
        change Except.ok _ = Except.ok _
        rw [Except.ok.injEq, Prod.mk.injEq]
        refine ⟨rfl, funext fun i => ?_⟩
        simp only [List.length_cons]
        rcases Nat.lt_trichotomy i n with hlt | rfl | hgt
        · rw [if_neg (by omega), if_neg (by omega), Function.update_of_ne hlt.ne]
        · rw [if_neg (by omega), if_pos (by omega), Function.update_self, Nat.sub_self]
          rfl
        · obtain ⟨j, rfl⟩ := Nat.exists_eq_add_of_lt hgt
          have hsub : n + j + 1 - n = j + 1 := by omega
          have hsub' : n + j + 1 - (n + 1) = j := by omega
          rw [Function.update_of_ne hgt.ne', hsub, hsub', List.getElem?_cons_succ]
          exact if_congr (by omega) rfl rfl

/-- The sequence of some jobs has one result for each. -/
lemma length_of_run_sequence {ts : List (Job κ V ε ρ)} {s : κ → V} {x : (κ → V) × List ρ}
    (h : (Job.sequence ts).run s = .ok x) : x.2.length = ts.length := by
  induction ts generalizing s x with
  | nil =>
    cases h
    rfl
  | cons t ts ih =>
    rw [Job.sequence, Job.run_bind] at h
    cases ht : t.run s with
    | error e =>
      rw [ht] at h
      cases h
    | ok y =>
      rw [ht] at h
      change ((Job.sequence ts).bind fun rs => Job.pure (y.2 :: rs)).run y.1 = .ok x at h
      rw [Job.run_bind] at h
      cases hts : (Job.sequence ts).run y.1 with
      | error e =>
        rw [hts] at h
        cases h
      | ok z =>
        rw [hts] at h
        cases h
        exact congrArg Nat.succ (ih hts)

lemma filterMap_range_getElem? (l : List ρ) :
    (List.range l.length).filterMap (fun i => l[i]?) = l := by
  induction l with
  | nil => rfl
  | cons a l ih =>
    rw [List.length_cons, List.range_succ_eq_map, List.filterMap_cons, List.filterMap_map]
    exact congrArg (a :: ·) ih

lemma ok_bind {τ : Type} (x : σ) (f : σ → Except ε τ) : (Except.ok x >>= f) = f x := rfl

lemma runTask_ok {f : ℕ → α → σ → Except ε (σ × ρ)} {acc : σ × (ℕ → Option ρ)} {t : α × ℕ}
    {x : σ × ρ} (h : f t.2 t.1 acc.1 = .ok x) :
    IterOrder.runTask f acc t = .ok (x.1, Function.update acc.2 t.2 (some x.2)) := by
  rw [IterOrder.runTask, h]

lemma runTask_error {f : ℕ → α → σ → Except ε (σ × ρ)} {acc : σ × (ℕ → Option ρ)} {t : α × ℕ}
    {e : ε} (h : f t.2 t.1 acc.1 = .error e) : IterOrder.runTask f acc t = .error e := by
  rw [IterOrder.runTask, h]

/-- Two jobs may change places, and so may the places where their results are kept. -/
lemma runTask_swap {prog : ℕ → α → Job κ V ε ρ} {t u : α × ℕ}
    (h : Job.Apart (prog t.2 t.1) (prog u.2 u.1)) (hne : t.2 ≠ u.2)
    {acc acc' : (κ → V) × (ℕ → Option ρ)}
    (hok : (IterOrder.runTask (fun i a s => (prog i a).run s) acc t >>= fun acc =>
      IterOrder.runTask (fun i a s => (prog i a).run s) acc u) = .ok acc') :
    (IterOrder.runTask (fun i a s => (prog i a).run s) acc u >>= fun acc =>
      IterOrder.runTask (fun i a s => (prog i a).run s) acc t) = .ok acc' := by
  cases ht : (prog t.2 t.1).run acc.1 with
  | error e =>
    rw [runTask_error ht] at hok
    cases hok
  | ok y =>
    rw [runTask_ok ht, ok_bind] at hok
    cases hu : (prog u.2 u.1).run y.1 with
    | error e =>
      rw [runTask_error hu] at hok
      cases hok
    | ok z =>
      rw [runTask_ok hu] at hok
      cases hok
      obtain ⟨s', hu', ht'⟩ := Job.run_swap h ht hu
      rw [runTask_ok hu', ok_bind, runTask_ok ht', Function.update_comm hne]

/-- Running jobs that are apart in any order is running their sequence. -/
theorem runTasks_iff {o : IterOrder} {prog : ℕ → α → Job κ V ε ρ} {tasks : List α}
    (h : (tasks.mapIdx prog).Pairwise Job.Apart) (s : κ → V) (x : (κ → V) × List ρ) :
    o.runTasks (fun i a s => (prog i a).run s) tasks s = .ok x ↔
      (Job.sequence (tasks.mapIdx prog)).run s = .ok x := by
  have hmap : tasks.mapIdx prog = tasks.zipIdx.map fun t => prog t.2 t.1 :=
    List.mapIdx_eq_zipIdx_map
  rw [hmap] at h ⊢
  have hindex : tasks.zipIdx.Pairwise fun t u => t.2 ≠ u.2 := by
    apply List.pairwise_map.mp
    rw [List.zipIdx_map_snd]
    exact List.nodup_range'
  have hperm := foldlM_perm (g := IterOrder.runTask fun i a s => (prog i a).run s)
    (o.list_perm tasks.zipIdx).symm
    (((List.pairwise_map.mp h).and hindex).imp fun {t u} htu acc acc' =>
      ⟨runTask_swap htu.1 htu.2, runTask_swap htu.1.symm htu.2.symm⟩) (s, fun _ => none)
  have hlisted := foldlM_runTask_zipIdx prog tasks 0 s fun _ => none
  have hresults : ∀ y, (Job.sequence (tasks.zipIdx.map fun t => prog t.2 t.1)).run s = .ok y →
      (List.range tasks.length).filterMap (fun i => if 0 ≤ i ∧ i < 0 + tasks.length
        then y.2[i - 0]? else none) = y.2 := by
    intro y hy
    have hlen := length_of_run_sequence hy
    rw [List.length_map, List.length_zipIdx] at hlen
    rw [← hlen]
    refine (List.filterMap_congr fun i hi => ?_).trans (filterMap_range_getElem? y.2)
    exact if_pos ⟨Nat.zero_le i, by rw [Nat.zero_add]; exact List.mem_range.mp hi⟩
  unfold IterOrder.runTasks
  cases hrun : (o.list tasks.zipIdx).foldlM
      (IterOrder.runTask fun i a s => (prog i a).run s) (s, fun _ => none) with
  | error e =>
    constructor
    · intro hx
      cases hx
    · intro hx
      rw [hx] at hlisted
      rw [(hperm _).mp hlisted] at hrun
      cases hrun
  | ok acc =>
    have hacc := (hperm acc).mpr hrun
    rw [hlisted] at hacc
    cases hseq : (Job.sequence (tasks.zipIdx.map fun t => prog t.2 t.1)).run s with
    | error e =>
      rw [hseq] at hacc
      cases hacc
    | ok y =>
      rw [hseq] at hacc
      obtain rfl := Except.ok.inj hacc
      simp only [hresults y hseq]

end Order

end Interleave
