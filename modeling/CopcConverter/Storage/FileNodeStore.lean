import CopcConverter.Foundations.Lists
import CopcConverter.Storage.NodeCalls

/-!
# Nodes in files of their own

The batch of every node is a file whose name is made of the key, so that two nodes never share a
file.  A write creates the file anew and then sends the batch piece by piece; a query looks for the
file and then reads it.  Between any two of these steps other calls may take theirs, and a file that
is read while it is being written promises nothing.

The store carries out calls as a machine whose state is the files and the phase of every call.  It
is an instance of the general theory of maps that are accessed by calls: it behaves as a map from
keys to lists of points in every run in which no two writes of one key overlap.  The second result
is about progress: in every run every call can be brought to its end, with or without new calls.
-/

namespace CopcConverter

open Calls Reader

/-! ## Names -/

/-- The name of the file of a node. -/
def nodePath (key : VoxelKey) : String :=
  Nat.repr key.level ++ ("_" ++ (Nat.repr key.x ++ ("_" ++ (Nat.repr key.y ++ ("_" ++
    Nat.repr key.z)))))

lemma underscore_notMem_repr (n : ℕ) : '_' ∉ (Nat.repr n).toList := by
  intro h
  rw [Nat.toList_repr] at h
  exact absurd (Nat.isDigit_of_mem_toDigits (by decide) (by decide) h) (by decide)

/-- Up to the first underscore stands a number. -/
lemma repr_append_inj {m n : ℕ} {s t : String}
    (h : Nat.repr m ++ ("_" ++ s) = Nat.repr n ++ ("_" ++ t)) : m = n ∧ s = t := by
  have hlist := congrArg String.toList h
  simp only [String.toList_append, show "_".toList = ['_'] from rfl, List.singleton_append] at hlist
  obtain ⟨hrepr, hrest⟩ :=
    Lists.append_cons_inj (underscore_notMem_repr m) (underscore_notMem_repr n) hlist
  exact ⟨Nat.repr_inj.mp (String.toList_inj.mp hrepr), String.toList_inj.mp hrest⟩

/-- Two nodes have two files. -/
theorem nodePath_injective : Function.Injective nodePath := by
  intro key key' h
  obtain ⟨hlevel, h⟩ := repr_append_inj h
  obtain ⟨hx, h⟩ := repr_append_inj h
  obtain ⟨hy, hz⟩ := repr_append_inj h
  exact VoxelKey.eq_of_coords hlevel hx hy (Nat.repr_inj.mp hz)

/-! ## The store -/

/-- The files of the nodes, by their names. -/
abbrev NodeFiles : Type := String → Option (List UInt8)

/-- A file after bytes were written at a position; what lies between the end and the position is
zero. -/
def writeAt (file : List UInt8) (pos : ℕ) (data : List UInt8) : List UInt8 :=
  file.take pos ++ List.replicate (pos - file.length) 0 ++ data ++ file.drop (pos + data.length)

/-- Writing at the end appends. -/
lemma writeAt_end (file data : List UInt8) : writeAt file file.length data = file ++ data := by
  rw [writeAt, List.take_length, Nat.sub_self, List.replicate_zero, List.append_nil,
    List.drop_eq_nil_of_le (Nat.le_add_right _ _), List.append_nil]

/-- How far a call has come. -/
inductive FilePhase where
  | called
  /-- The file of a write is there and empty. -/
  | created
  /-- A write stands at a position of the file, and some bytes are left. -/
  | writing (pos : ℕ) (rest : List UInt8)
  /-- A query has looked for the file. -/
  | opened (found : Bool)

/-- What a store is made with: the format of the batches. -/
structure FileNodeStore where
  format : NodeFormat

namespace FileNodeStore

variable (store : FileNodeStore)

/-- The next step of a call.  The numbers say how many more bytes than one an access to a file
transfers. -/
def step (chops : ℕ → ℕ) (call : NodeCall) (phase : FilePhase) (s : NodeFiles) :
    Option (FilePhase × NodeFiles) :=
  match call, phase with
  | .write key _, .called => some (.created, Function.update s (nodePath key) (some []))
  | .write _ points, .created =>
    (store.format.write points).map fun buf => (.writing 0 buf, s)
  | .write key _, .writing pos rest =>
    if rest.isEmpty then none
    else
      let piece := rest.take (chops 0 + 1)
      some (.writing (pos + piece.length) (rest.drop (chops 0 + 1)),
        Function.update s (nodePath key)
          (some (writeAt ((s (nodePath key)).getD []) pos piece)))
  | .query _ key, .called => some (.opened (s (nodePath key)).isSome, s)
  | _, _ => none

/-- What a call returns when it is done. -/
def finish (fuel : ℕ) (chops : ℕ → ℕ) (call : NodeCall) (phase : FilePhase) (s : NodeFiles) :
    Option NodeAnswer :=
  match call, phase with
  | .write _ points, .created =>
    if (store.format.write points).isNone then some .failed else none
  | .write _ _, .writing _ rest => if rest.isEmpty then some .written else none
  | .query q key, .opened found =>
    -- the file is read at one time: a file that is written meanwhile is promised nothing
    let file : Option FileHandle :=
      if found then some ⟨(s (nodePath key)).getD [], 0, chops⟩ else none
    match q with
    | .read => some (file.elim (.points []) fun f => store.format.read FileHandle.readSome f fuel)
    | .count => some (store.format.count file fuel)
  | _, _ => none

/-- The calls as the store carries them out. -/
def calls (T : Type) (fuel : ℕ) : Object T NodeCall NodeAnswer NodeFiles FilePhase (ℕ → ℕ) where
  start _ _ := .called
  step _ := store.step
  finish _ := store.finish fuel

/-- What a step does. -/
inductive Steps (s : NodeFiles) : NodeCall → FilePhase → FilePhase → NodeFiles → Prop
  | create {key : VoxelKey} {points : List RawPoint} :
      Steps s (.write key points) .called .created (Function.update s (nodePath key) (some []))
  | serialize {key : VoxelKey} {points : List RawPoint} (buf : List UInt8)
      (hbuf : store.format.write points = some buf) :
      Steps s (.write key points) .created (.writing 0 buf) s
  | send {key : VoxelKey} {points : List RawPoint} {pos : ℕ} (piece rest : List UInt8) :
      Steps s (.write key points) (.writing pos (piece ++ rest))
        (.writing (pos + piece.length) rest)
        (Function.update s (nodePath key)
          (some (writeAt ((s (nodePath key)).getD []) pos piece)))
  | look {q : NodeQuery} {key : VoxelKey} :
      Steps s (.query q key) .called (.opened (s (nodePath key)).isSome) s

variable {store} {s s' : NodeFiles} {call : NodeCall} {phase phase' : FilePhase}

lemma steps_of_step {chops : ℕ → ℕ} (h : store.step chops call phase s = some (phase', s')) :
    store.Steps s call phase phase' s' := by
  unfold step at h
  split at h
  · obtain ⟨rfl, rfl⟩ := Prod.mk.inj (Option.some.inj h)
    exact Steps.create
  · obtain ⟨buf, hbuf, heq⟩ := Option.map_eq_some_iff.mp h
    obtain ⟨rfl, rfl⟩ := Prod.mk.inj heq
    exact Steps.serialize buf hbuf
  · next key points pos rest =>
    split_ifs at h
    obtain ⟨rfl, rfl⟩ := Prod.mk.inj (Option.some.inj h)
    have hsend : store.Steps s (.write key points)
        (.writing pos (rest.take (chops 0 + 1) ++ rest.drop (chops 0 + 1))) _ _ := Steps.send _ _
    rwa [List.take_append_drop] at hsend
  · obtain ⟨rfl, rfl⟩ := Prod.mk.inj (Option.some.inj h)
    exact Steps.look
  · cases h

/-! ## What holds while calls run -/

variable (store) in
/-- The points of a key. -/
def Value (s : NodeFiles) (key : VoxelKey) (points : List RawPoint) : Prop :=
  (s (nodePath key) = none ∧ points = []) ∨
    (s (nodePath key) = some (store.format.frame points) ∧ store.format.Fits points)

variable (store) in
/-- What a call relies on in its phase. -/
def PhaseOk {T : Type} (s : NodeFiles) (_ : T) : NodeCall → FilePhase → Prop
  | .write _ points, .called => store.format.Fits points
  | .write key points, .created => s (nodePath key) = some [] ∧ store.format.Fits points
  | .write key points, .writing pos rest => store.format.Fits points ∧
      ∃ sent, s (nodePath key) = some sent ∧ sent.length = pos ∧
        store.format.frame points = sent ++ rest
  | _, _ => True

/-- A query on its way can only be answered about some points. -/
def Ready {T : Type} (store : FileNodeStore) (s : NodeFiles) (_ : T) (_ : NodeQuery)
    (key : VoxelKey) : FilePhase → List RawPoint → Prop
  | .opened found, points => found = (s (nodePath key)).isSome ∧ store.Value s key points
  | _, _ => True

/-- Only a write of a key changes its file. -/
lemma Steps.file (h : store.Steps s call phase phase' s') {key : VoxelKey}
    (hkey : ∀ points, call ≠ .write key points) : s' (nodePath key) = s (nodePath key) := by
  have hother : ∀ j points, call = .write j points → nodePath key ≠ nodePath j := by
    rintro j points rfl hpath
    exact hkey points (by rw [nodePath_injective hpath])
  cases h with
  | create => exact Function.update_of_ne (hother _ _ rfl) _ _
  | serialize => rfl
  | send => exact Function.update_of_ne (hother _ _ rfl) _ _
  | look => rfl

/-- The points of a key stay the same while its file does. -/
lemma Value.congr {key : VoxelKey} {points : List RawPoint} (h : store.Value s key points)
    (hfile : s' (nodePath key) = s (nodePath key)) : store.Value s' key points := by
  rw [Value, hfile]
  exact h

/-- What a call relies on is kept while the file of its key stays the same. -/
lemma PhaseOk.congr {T : Type} {t : T} (h : store.PhaseOk s t call phase)
    (hfile : ∀ key points, call = .write key points → s' (nodePath key) = s (nodePath key)) :
    store.PhaseOk s' t call phase := by
  cases call with
  | query => trivial
  | write key points =>
    have hsame := hfile key points rfl
    cases phase with
    | called => exact h
    | created => exact ⟨hsame.trans h.1, h.2⟩
    | writing pos rest =>
      obtain ⟨hfits, sent, hsent, hpos, hframe⟩ := h
      exact ⟨hfits, sent, hsame.trans hsent, hpos, hframe⟩
    | opened => trivial

/-- A call has in its next phase what it relies on there. -/
lemma Steps.phaseOk {T : Type} {t : T} (h : store.Steps s call phase phase' s')
    (hphase : store.PhaseOk s t call phase) :
    store.PhaseOk s' t call phase' := by
  cases h with
  | create => exact ⟨Function.update_self _ _ _, hphase⟩
  | serialize buf hbuf =>
    obtain ⟨hempty, hfits⟩ := hphase
    obtain rfl := Option.some.inj (hfits.write_eq.symm.trans hbuf)
    exact ⟨hfits, [], hempty, rfl, rfl⟩
  | send piece rest =>
    obtain ⟨hfits, sent, hsent, rfl, hframe⟩ := hphase
    refine ⟨hfits, sent ++ piece, ?_, List.length_append, by rw [hframe, List.append_assoc]⟩
    rw [Function.update_self, hsent, Option.getD_some, writeAt_end]
  | look => trivial

/-! ## What a call returns -/

/-- A write ends well, and then the key has the points. -/
lemma finish_write {T : Type} {t : T} {fuel : ℕ} {chops : ℕ → ℕ} {key : VoxelKey}
    {points : List RawPoint} {r : NodeAnswer} (hphase : store.PhaseOk s t (.write key points) phase)
    (h : store.finish fuel chops (.write key points) phase s = some r) :
    r = .written ∧ store.Value s key points := by
  cases phase with
  | created =>
    simp only [finish, hphase.2.write_eq, Option.isNone_some] at h
    cases h
  | writing pos rest =>
    obtain ⟨hfits, sent, hsent, -, hframe⟩ := hphase
    simp only [finish] at h
    split_ifs at h with hrest
    rw [List.isEmpty_iff.mp hrest, List.append_nil] at hframe
    exact ⟨(Option.some.inj h).symm, Or.inr ⟨by rw [hsent, hframe], hfits⟩⟩
  | called | opened => cases h

/-- A query is answered about the points in the file. -/
lemma finish_query {T : Type} {t : T} (hlz4 : store.format.lz4.Lawful) {fuel : ℕ} (hfuel : 1 < fuel)
    {chops : ℕ → ℕ} {q : NodeQuery} {key : VoxelKey} {points : List RawPoint} {r : NodeAnswer}
    (hready : store.Ready s t q key phase points)
    (h : store.finish fuel chops (.query q key) phase s = some r) : r = q.answer points := by
  cases phase with
  | opened found =>
    obtain ⟨rfl, ⟨hnone, rfl⟩ | ⟨hfile, hfits⟩⟩ := hready
    · simp only [finish, hnone] at h
      cases q with
      | read => exact (Option.some.inj h).symm
      | count => exact (Option.some.inj h).symm
    · have hat : FileHandle.At ⟨store.format.frame points, 0, chops⟩ (store.format.frame points) :=
        ⟨[], rfl, rfl⟩
      simp only [finish, hfile, Option.isSome_some, if_true, Option.getD_some] at h
      cases q with
      | read =>
        obtain rfl := Option.some.inj h
        exact hfits.read_eq hlz4 (FileHandle.delivers_of_at hat) hfuel
      | count =>
        obtain rfl := Option.some.inj h
        exact hfits.count_eq hlz4 hat hfuel
  | called | created | writing => cases q <;> cases h

/-- The steps of the store do what the steps of a map have to do. -/
theorem mapSteps {T : Type} [DecidableEq T] (hlz4 : store.format.lz4.Lawful) {fuel : ℕ}
    (hfuel : 1 < fuel) :
    MapSteps (store.calls T fuel) .written NodeQuery.answer store.format.Fits (fun _ => True)
      store.PhaseOk store.Value store.Ready where
  local_start s t call hfits := by
    cases call with
    | write key points => exact hfits key points rfl
    | query => trivial
  global_step _ _ _ _ _ _ _ _ _ _ := trivial
  local_step s s' t a call p p' _ hphase hstep := (steps_of_step hstep).phaseOk hphase
  local_frame s s' t a call p p' u other pu _ _ hkeys hstep hother := by
    apply PhaseOk.congr hother
    rintro key points rfl
    refine (steps_of_step hstep).file fun w hw => ?_
    exact hkeys key w points hw rfl
  val_step s s' t a call p p' key points _ hstep hkey hvalue :=
    hvalue.congr ((steps_of_step hstep).file hkey)
  val_written s t a key points p r hphase hfinish := finish_write hphase hfinish
  ready_start _ _ _ _ _ _ := trivial
  ready_step s s' t a q key p p' points _ hstep hvalue _ := by
    cases steps_of_step hstep with
    | look => exact ⟨rfl, hvalue⟩
  ready_frame s s' t a call p p' u q key pu points _ _ hstep hkey hready := by
    have hfile := (steps_of_step hstep).file hkey
    cases pu with
    | opened found =>
      obtain ⟨hfound, hvalue⟩ := hready
      exact ⟨hfound.trans (by rw [hfile]), hvalue.congr hfile⟩
    | called | created | writing => trivial
  ready_finish s t a q key p points r hready hfinish := finish_query hlz4 hfuel hready hfinish

/-- The store behaves as a map, in every run in which no two writes of one key overlap. -/
theorem behavesAsMap {T : Type} [DecidableEq T] (hlz4 : store.format.lz4.Lawful) {fuel : ℕ}
    (hfuel : 1 < fuel) {actions : List (Action T NodeCall (ℕ → ℕ))}
    {s : System T NodeCall NodeAnswer NodeFiles FilePhase}
    (hrun : (System.start fun _ => none).run (store.calls T fuel) actions = some s)
    (hapart : WritesApart s.history) (hfits : WritesOnly store.format.Fits s.history) :
    BehavesAsMap [] .written NodeQuery.answer s.history := by
  exact (mapSteps hlz4 hfuel).behaves trivial (fun _ => Or.inl ⟨rfl, rfl⟩) hrun hapart hfits

/-! ## Calls return -/

/-- The phases that a call goes through. -/
def Suits : NodeCall → FilePhase → Prop
  | .write _ _, .opened _ => False
  | .query _ _, .created => False
  | .query _ _, .writing _ _ => False
  | _, _ => True

lemma Steps.suits (h : store.Steps s call phase phase' s') : Suits call phase' := by
  cases h with
  | create | serialize | send | look => trivial

/-- How far a call is from its end: the number of phases before, and the bytes that it has to
send. -/
def FilePhase.left : FilePhase → ℕ ×ₗ ℕ
  | .called => toLex (2, 0)
  | .created => toLex (1, 0)
  | .writing _ rest => toLex (0, rest.length)
  | .opened _ => toLex (0, 0)

/-- A call returns or takes a step towards its end. -/
lemma closer (fuel : ℕ) (s : NodeFiles) (hsuits : Suits call phase) :
    (∃ r, store.finish fuel (fun _ => 0) call phase s = some r) ∨
      ∃ phase' s', store.step (fun _ => 0) call phase s = some (phase', s') ∧
        FilePhase.left phase' < FilePhase.left phase := by
  cases call with
  | write key points =>
    cases phase with
    | called =>
      refine Or.inr ⟨_, _, rfl, ?_⟩
      exact Prod.Lex.left _ _ (by decide)
    | created =>
      cases hbuf : store.format.write points with
      | none => exact Or.inl ⟨.failed, by simp only [finish, hbuf, Option.isNone_none, if_true]⟩
      | some buf =>
        refine Or.inr ⟨.writing 0 buf, s, by simp only [step, hbuf, Option.map_some], ?_⟩
        exact Prod.Lex.left _ _ (by decide)
    | writing pos rest =>
      cases rest with
      | nil => exact Or.inl ⟨.written, rfl⟩
      | cons b rest =>
        refine Or.inr ⟨_, _, rfl, ?_⟩
        exact Prod.Lex.right _ (Nat.lt_succ_self _)
    | opened => exact hsuits.elim
  | query q key =>
    cases phase with
    | called =>
      refine Or.inr ⟨_, _, rfl, ?_⟩
      exact Prod.Lex.left _ _ (by decide)
    | opened found =>
      cases q with
      | read => exact Or.inl ⟨_, rfl⟩
      | count => exact Or.inl ⟨_, rfl⟩
    | created => exact hsuits.elim
    | writing => exact hsuits.elim

/-- In every run every call can be brought to its end without any new calls. -/
theorem calls_canReturnAlone {T : Type} [DecidableEq T] {fuel : ℕ}
    {actions : List (Action T NodeCall (ℕ → ℕ))}
    {s : System T NodeCall NodeAnswer NodeFiles FilePhase}
    (hrun : (System.start fun _ => none).run (store.calls T fuel) actions = some s) (t : T) :
    CanReturnAlone (store.calls T fuel) s t := by
  have hkeep : ∀ s s' : System T NodeCall NodeAnswer NodeFiles FilePhase,
      (∀ t call phase, s.threads t = some (call, phase) → Suits call phase) →
      Acts (store.calls T fuel) s s' →
      ∀ t call phase, s'.threads t = some (call, phase) → Suits call phase := by
    intro s s' hs hacts
    refine Acts.phases (Q := fun _ => Suits) ?_ ?_ hs hacts
    · intro t call
      cases call with
      | write | query => trivial
    · intro t a call phase phase' shared shared' _ hstep
      exact (steps_of_step hstep).suits
  refine canReturnAlone hkeep
    (fun s => ((s.threads t).map fun w => FilePhase.left w.2).getD (toLex (0, 0))) ?_
    (run_induction (by simp [System.start]) hkeep hrun)
  intro s hs hbusy
  obtain ⟨⟨call, phase⟩, ht⟩ := Option.ne_none_iff_exists'.mp hbusy
  obtain ⟨r, hfinish⟩ | ⟨phase', shared, hstep, hlt⟩ :=
    @closer store call phase fuel s.shared (hs t call phase ht)
  · exact ⟨.respond t fun _ => 0, _, trivial, act_respond ht hfinish,
      Or.inl (Function.update_self _ _ _)⟩
  · have hact : (store.calls T fuel).step t (fun _ => 0) call phase s.shared =
        some (phase', shared) := hstep
    refine ⟨.step t fun _ => 0, _, trivial, act_step ht hact, Or.inr ?_⟩
    simp only [ht, Function.update_self, Option.map_some, Option.getD_some]
    exact hlt

/-- In every run every call can be brought to its end. -/
theorem calls_canReturn {T : Type} [DecidableEq T] {fuel : ℕ}
    {actions : List (Action T NodeCall (ℕ → ℕ))}
    {s : System T NodeCall NodeAnswer NodeFiles FilePhase}
    (hrun : (System.start fun _ => none).run (store.calls T fuel) actions = some s) (t : T) :
    CanReturn (store.calls T fuel) s t := (calls_canReturnAlone hrun t).canReturn

end FileNodeStore

end CopcConverter
