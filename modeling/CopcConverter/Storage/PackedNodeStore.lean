import CopcConverter.Foundations.BufWriter
import CopcConverter.Storage.NodeCalls

/-!
# Nodes in pack files

Every worker thread appends the batches of its nodes to a pack file, through a buffered writer
behind a lock; an index says where the batch of a node is.  A write appends to the pack and then
puts the location into the index.  A read looks the location up, flushes the pack, and reads from
the file without a lock, while others go on appending to it.

All of these are separate steps, with those of other threads in between.  What carries the proof is
that a pack only grows: a location that was right once stays right, a flushed batch stays in the
file, and the bytes that are on their way follow it.  So the store behaves as a map in every run in
which no two writes of one key overlap, as long as the numbers of the packs are kept in full.
-/

namespace CopcConverter

open Calls Reader

/-! ## Packs -/

/-- Where the batch of a node is. -/
structure NodeLocation where
  packId : UInt16
  offset : ℕ
  byteLen : UInt32
  pointCount : UInt32

/-- A pack: the bytes in its file, those its writer is about to send there, and those it holds back;
the append offset; and the thread that has the locks.  The lock of the offset is only taken by the
thread that has the lock of the writer. -/
structure Pack (T : Type) where
  file : List UInt8
  outgoing : List UInt8
  pending : List UInt8
  cursor : ℕ
  holder : Option T

namespace Pack

variable {T : Type}

/-- The capacity of the writer of a pack. -/
def capacity : ℕ := 8192

/-- The pack of a new file. -/
def new : Pack T := ⟨[], [], [], 0, none⟩

/-- Lock the pack and hand bytes to its writer. -/
def append (t : T) (buf : List UInt8) (p : Pack T) : Pack T :=
  let w := BufWriter.writeAll capacity p.pending buf
  { p with outgoing := p.outgoing ++ w.1, pending := w.2, holder := some t }

/-- Lock the pack and make its writer send what it holds back. -/
def flush (t : T) (p : Pack T) : Pack T :=
  { p with outgoing := p.outgoing ++ p.pending, pending := [], holder := some t }

/-- Some bytes reach the file, at least one. -/
def send (n : ℕ) (p : Pack T) : Pack T :=
  { p with file := p.file ++ p.outgoing.take (n + 1), outgoing := p.outgoing.drop (n + 1) }

/-- Move the append offset and unlock the pack. -/
def release (byteLen : ℕ) (p : Pack T) : Pack T :=
  { p with cursor := p.cursor + byteLen, holder := none }

/-- All bytes that were handed to the writer. -/
def content (p : Pack T) : List UInt8 := p.file ++ (p.outgoing ++ p.pending)

lemma content_append (t : T) (buf : List UInt8) (p : Pack T) :
    (p.append t buf).content = p.content ++ buf := by
  simp only [content, append, List.append_assoc, BufWriter.writeAll_spec]

lemma content_flush (t : T) (p : Pack T) : (p.flush t).content = p.content := by
  simp only [content, flush, List.append_nil]

lemma content_send (n : ℕ) (p : Pack T) : (p.send n).content = p.content := by
  simp only [content, send]
  rw [List.append_assoc, ← List.append_assoc (p.outgoing.take _), List.take_append_drop]

lemma content_release (byteLen : ℕ) (p : Pack T) : (p.release byteLen).content = p.content := rfl

end Pack

/-! ## The store -/

/-- What a store is made with: the format of the batches, the number of packs, and the number that a
thread has in its pool. -/
structure PackedNodeStore (T : Type) where
  format : NodeFormat
  packCount : ℕ
  threadIndex : T → Option ℕ

/-- The packs and the index. -/
structure PackedState (T : Type) where
  packs : ℕ → Pack T
  index : VoxelKey → Option NodeLocation

namespace PackedState

variable {T : Type}

/-- New packs, and nothing in the index. -/
def new : PackedState T := ⟨fun _ => .new, fun _ => none⟩

/-- Change one pack. -/
def setPack (s : PackedState T) (i : ℕ) (p : Pack T) : PackedState T :=
  { s with packs := Function.update s.packs i p }

@[simp] lemma setPack_self (s : PackedState T) (i : ℕ) (p : Pack T) :
    (s.setPack i p).packs i = p := by
  simp only [setPack, Function.update_self]

lemma setPack_of_ne (s : PackedState T) {i j : ℕ} (h : j ≠ i) (p : Pack T) :
    (s.setPack i p).packs j = s.packs j := by
  simp only [setPack, Function.update_of_ne h]

/-- Put a location into the index. -/
def insert (s : PackedState T) (key : VoxelKey) (loc : NodeLocation) : PackedState T :=
  { s with index := Function.update s.index key (some loc) }

end PackedState

/-- How far a call has come. -/
inductive PackedPhase where
  | called
  /-- A write has the locks of its pack. -/
  | appending (offset : ℕ) (byteLen : UInt32)
  /-- The locks are free again, and the index is not changed yet. -/
  | appended (loc : NodeLocation)
  | inserted
  /-- The index was looked up. -/
  | found (loc : Option NodeLocation)
  /-- A read has the lock of the pack. -/
  | flushing (loc : NodeLocation)
  /-- A read has the file open; what the file was at each of its accesses. -/
  | reading (loc : NodeLocation) (views : List (List UInt8))

namespace PackedNodeStore

variable {T : Type} (store : PackedNodeStore T)

/-- The pack that a thread appends to. -/
def currentPackId (t : T) : ℕ := ((store.threadIndex t).map (· % store.packCount)).getD 0

/-- The next step of a call.  The numbers say how many more bytes than one an access to a file
transfers. -/
def step (t : T) (chops : ℕ → ℕ) (call : NodeCall) (phase : PackedPhase) (s : PackedState T) :
    Option (PackedPhase × PackedState T) :=
  let own := store.currentPackId t
  match call, phase with
  | .write _ points, .called => (store.format.write points).bind fun buf =>
    if (s.packs own).holder.isNone then
      some (.appending (s.packs own).cursor (UInt32.ofNat buf.length),
        s.setPack own ((s.packs own).append t buf))
    else none
  | .write _ points, .appending offset byteLen =>
    if (s.packs own).outgoing.isEmpty then
      some (.appended ⟨UInt16.ofNat own, offset, byteLen, UInt32.ofNat points.length⟩,
        s.setPack own ((s.packs own).release byteLen.toNat))
    else some (.appending offset byteLen, s.setPack own ((s.packs own).send (chops 0)))
  | .write key _, .appended loc => some (.inserted, s.insert key loc)
  | .query _ key, .called => some (.found (s.index key), s)
  | .query .read _, .found (some loc) =>
    let i := loc.packId.toNat
    if (s.packs i).holder.isNone then some (.flushing loc, s.setPack i ((s.packs i).flush t))
    else none
  | .query .read _, .flushing loc =>
    let i := loc.packId.toNat
    if (s.packs i).outgoing.isEmpty then
      some (.reading loc [], s.setPack i ((s.packs i).release 0))
    else some (.flushing loc, s.setPack i ((s.packs i).send (chops 0)))
  | .query .read _, .reading loc views =>
    some (.reading loc (views ++ [(s.packs loc.packId.toNat).file]), s)
  | _, _ => none

/-- What a call returns when it is done. -/
def finish (fuel : ℕ) (_ : T) (chops : ℕ → ℕ) (call : NodeCall) (phase : PackedPhase)
    (s : PackedState T) : Option NodeAnswer :=
  match call, phase with
  | .write _ points, .called => if (store.format.write points).isNone then some .failed else none
  | .write _ _, .inserted => some .written
  | .query .read _, .found none => some (.points [])
  | .query .count _, .found loc =>
    some (.total ((loc.map fun loc => loc.pointCount.toNat).getD 0))
  | .query .read _, .reading loc views =>
    let file := (s.packs loc.packId.toNat).file
    some (store.format.read (readLimited LiveFile.readSome)
      ⟨loc.byteLen.toNat, ⟨fun i => views.getD i file, loc.offset, chops⟩⟩ fuel)
  | _, _ => none

/-- The calls as the store carries them out. -/
def calls (fuel : ℕ) : Object T NodeCall NodeAnswer (PackedState T) PackedPhase (ℕ → ℕ) where
  start _ _ := .called
  step := store.step
  finish := store.finish fuel

/-- What a step does. -/
inductive Steps (t : T) (s : PackedState T) :
    NodeCall → PackedPhase → PackedPhase → PackedState T → Prop
  | append {key : VoxelKey} {points : List RawPoint} (buf : List UInt8)
      (hbuf : store.format.write points = some buf)
      (hfree : (s.packs (store.currentPackId t)).holder = none) :
      Steps t s (.write key points) .called
        (.appending (s.packs (store.currentPackId t)).cursor (UInt32.ofNat buf.length))
        (s.setPack (store.currentPackId t) ((s.packs (store.currentPackId t)).append t buf))
  | send {key : VoxelKey} {points : List RawPoint} {offset : ℕ} {byteLen : UInt32} (n : ℕ) :
      Steps t s (.write key points) (.appending offset byteLen) (.appending offset byteLen)
        (s.setPack (store.currentPackId t) ((s.packs (store.currentPackId t)).send n))
  | release {key : VoxelKey} {points : List RawPoint} {offset : ℕ} {byteLen : UInt32}
      (hsent : (s.packs (store.currentPackId t)).outgoing = []) :
      Steps t s (.write key points) (.appending offset byteLen)
        (.appended ⟨UInt16.ofNat (store.currentPackId t), offset, byteLen,
          UInt32.ofNat points.length⟩)
        (s.setPack (store.currentPackId t)
          ((s.packs (store.currentPackId t)).release byteLen.toNat))
  | insert {key : VoxelKey} {points : List RawPoint} {loc : NodeLocation} :
      Steps t s (.write key points) (.appended loc) .inserted (s.insert key loc)
  | lookup {q : NodeQuery} {key : VoxelKey} :
      Steps t s (.query q key) .called (.found (s.index key)) s
  | flush {key : VoxelKey} {loc : NodeLocation}
      (hfree : (s.packs loc.packId.toNat).holder = none) :
      Steps t s (.query .read key) (.found (some loc)) (.flushing loc)
        (s.setPack loc.packId.toNat ((s.packs loc.packId.toNat).flush t))
  | sendHeld {key : VoxelKey} {loc : NodeLocation} (n : ℕ) :
      Steps t s (.query .read key) (.flushing loc) (.flushing loc)
        (s.setPack loc.packId.toNat ((s.packs loc.packId.toNat).send n))
  | flushed {key : VoxelKey} {loc : NodeLocation}
      (hsent : (s.packs loc.packId.toNat).outgoing = []) :
      Steps t s (.query .read key) (.flushing loc) (.reading loc [])
        (s.setPack loc.packId.toNat ((s.packs loc.packId.toNat).release 0))
  | look {key : VoxelKey} {loc : NodeLocation} {views : List (List UInt8)} :
      Steps t s (.query .read key) (.reading loc views)
        (.reading loc (views ++ [(s.packs loc.packId.toNat).file])) s

variable {store} {t : T} {s s' : PackedState T} {call : NodeCall} {phase phase' : PackedPhase}

lemma steps_of_step {chops : ℕ → ℕ}
    (h : store.step t chops call phase s = some (phase', s')) :
    store.Steps t s call phase phase' s' := by
  unfold step at h
  simp only at h
  split at h
  · obtain ⟨buf, hbuf, hlock⟩ := Option.bind_eq_some_iff.mp h
    split_ifs at hlock with hfree
    obtain ⟨rfl, rfl⟩ := Prod.mk.inj (Option.some.inj hlock)
    exact Steps.append buf hbuf (Option.isNone_iff_eq_none.mp hfree)
  · split_ifs at h with hsent
    · obtain ⟨rfl, rfl⟩ := Prod.mk.inj (Option.some.inj h)
      exact Steps.release (List.isEmpty_iff.mp hsent)
    · obtain ⟨rfl, rfl⟩ := Prod.mk.inj (Option.some.inj h)
      exact Steps.send (chops 0)
  · obtain ⟨rfl, rfl⟩ := Prod.mk.inj (Option.some.inj h)
    exact Steps.insert
  · obtain ⟨rfl, rfl⟩ := Prod.mk.inj (Option.some.inj h)
    exact Steps.lookup
  · split_ifs at h with hfree
    obtain ⟨rfl, rfl⟩ := Prod.mk.inj (Option.some.inj h)
    exact Steps.flush (Option.isNone_iff_eq_none.mp hfree)
  · split_ifs at h with hsent
    · obtain ⟨rfl, rfl⟩ := Prod.mk.inj (Option.some.inj h)
      exact Steps.flushed (List.isEmpty_iff.mp hsent)
    · obtain ⟨rfl, rfl⟩ := Prod.mk.inj (Option.some.inj h)
      exact Steps.sendHeld (chops 0)
  · obtain ⟨rfl, rfl⟩ := Prod.mk.inj (Option.some.inj h)
    exact Steps.look
  · cases h

/-! ## What holds while calls run -/

/-- What a pack keeps while its locks are free: nothing is on its way, and the offset is where the
next batch begins. -/
def Idle (p : Pack T) : Prop := p.outgoing = [] ∧ p.cursor = p.content.length

variable (store) in
/-- A location leads to the batch of some points. -/
structure Locates (s : PackedState T) (loc : NodeLocation) (points : List RawPoint) : Prop where
  fits : store.format.Fits points
  byteLen : loc.byteLen.toNat = (store.format.frame points).length
  pointCount : loc.pointCount.toNat = points.length
  bytes : store.format.frame points <+: (s.packs loc.packId.toNat).content.drop loc.offset

variable (store) in
/-- The points of a key. -/
def Value (s : PackedState T) (key : VoxelKey) (points : List RawPoint) : Prop :=
  (s.index key = none ∧ points = []) ∨
    ∃ loc, s.index key = some loc ∧ store.Locates s loc points

variable (store) in
/-- A write that has the locks: its batch ends the pack, and the offset is not moved yet. -/
structure Appending (s : PackedState T) (t : T) (points : List RawPoint) (offset : ℕ)
    (byteLen : UInt32) : Prop where
  fits : store.format.Fits points
  byteLen : byteLen.toNat = (store.format.frame points).length
  holder : (s.packs (store.currentPackId t)).holder = some t
  cursor : (s.packs (store.currentPackId t)).cursor = offset
  length : (s.packs (store.currentPackId t)).content.length =
    offset + (store.format.frame points).length
  bytes : store.format.frame points <+: (s.packs (store.currentPackId t)).content.drop offset

/-- A read that has the lock: its writer holds nothing back. -/
structure Flushing (s : PackedState T) (t : T) (loc : NodeLocation) : Prop where
  holder : (s.packs loc.packId.toNat).holder = some t
  pending : (s.packs loc.packId.toNat).pending = []
  cursor : (s.packs loc.packId.toNat).cursor = (s.packs loc.packId.toNat).content.length

variable (store) in
/-- What a call relies on in its phase. -/
def PhaseOk (s : PackedState T) (t : T) : NodeCall → PackedPhase → Prop
  | .write _ points, .called => store.format.Fits points
  | .write _ points, .appending offset byteLen => store.Appending s t points offset byteLen
  | .write _ points, .appended loc => store.Locates s loc points
  | .write key points, .inserted => store.Value s key points
  | .query _ _, .flushing loc => Flushing s t loc
  | _, _ => True

/-- Packs whose locks are free are idle. -/
def PacksIdle (s : PackedState T) : Prop := ∀ i, (s.packs i).holder = none → Idle (s.packs i)

variable (store) in
/-- A read on its way can only return some points. -/
def Ready (s : PackedState T) (_ : T) (_ : NodeQuery) (_ : VoxelKey) :
    PackedPhase → List RawPoint → Prop
  | .found loc, points => (loc = none ∧ points = []) ∨
      ∃ l, loc = some l ∧ store.Locates s l points
  | .flushing loc, points => store.Locates s loc points
  | .reading loc views, points => store.Locates s loc points ∧
      ∀ bytes ∈ (s.packs loc.packId.toNat).file :: views,
        store.format.frame points <+: bytes.drop loc.offset
  | _, _ => True

/-! ## Packs only grow -/

/-- What a step of a thread does to a pack: no byte changes, and nothing happens to a pack whose
locks another thread has. -/
structure Grows (t : T) (p p' : Pack T) : Prop where
  file : p.file <+: p'.file
  content : p.content <+: p'.content
  others : ∀ u, u ≠ t → p.holder = some u → p' = p

lemma Grows.refl (t : T) (p : Pack T) : Grows t p p :=
  ⟨List.prefix_rfl, List.prefix_rfl, fun _ _ _ => rfl⟩

/-- A change of a pack that no other thread has locked. -/
lemma grows_setPack {i : ℕ} {p : Pack T} (hfile : (s.packs i).file <+: p.file)
    (hcontent : (s.packs i).content <+: p.content)
    (hholder : ∀ u, u ≠ t → (s.packs i).holder ≠ some u) (j : ℕ) :
    Grows t (s.packs j) ((s.setPack i p).packs j) := by
  by_cases hj : j = i
  · obtain rfl := hj
    rw [PackedState.setPack_self]
    exact ⟨hfile, hcontent, fun u hu hholds => absurd hholds (hholder u hu)⟩
  · rw [PackedState.setPack_of_ne s hj]
    exact Grows.refl t _

/-- No step changes a byte or a pack that another thread has locked. -/
lemma Steps.grows (h : store.Steps t s call phase phase' s') (hphase : store.PhaseOk s t call phase)
    (j : ℕ) : Grows t (s.packs j) (s'.packs j) := by
  have hfree : ∀ i, (s.packs i).holder = none → ∀ u, u ≠ t → (s.packs i).holder ≠ some u := by
    intro i hnone u _ hholds
    rw [hnone] at hholds
    cases hholds
  have hown : ∀ i, (s.packs i).holder = some t → ∀ u, u ≠ t → (s.packs i).holder ≠ some u := by
    intro i hself u hu hholds
    exact hu (Option.some.inj (hholds.symm.trans hself))
  cases h with
  | append buf hbuf hnone =>
    refine grows_setPack ?_ ?_ (hfree _ hnone) j
    · exact List.prefix_rfl
    · rw [Pack.content_append]
      exact List.prefix_append _ _
  | send n =>
    refine grows_setPack ?_ ?_ (hown _ hphase.holder) j
    · exact List.prefix_append _ _
    · rw [Pack.content_send]
  | release hsent =>
    refine grows_setPack ?_ ?_ (hown _ hphase.holder) j
    · exact List.prefix_rfl
    · exact List.prefix_rfl
  | insert => exact Grows.refl t _
  | lookup => exact Grows.refl t _
  | flush hnone =>
    refine grows_setPack ?_ ?_ (hfree _ hnone) j
    · exact List.prefix_rfl
    · rw [Pack.content_flush]
  | sendHeld n =>
    refine grows_setPack ?_ ?_ (hown _ hphase.holder) j
    · exact List.prefix_append _ _
    · rw [Pack.content_send]
  | flushed hsent =>
    refine grows_setPack ?_ ?_ (hown _ hphase.holder) j
    · exact List.prefix_rfl
    · exact List.prefix_rfl
  | look => exact Grows.refl t _

/-- Only a write of a key changes what the index has for it. -/
lemma Steps.index (h : store.Steps t s call phase phase' s') {key : VoxelKey}
    (hkey : ∀ points, call ≠ .write key points) : s'.index key = s.index key := by
  cases h with
  | insert =>
    refine Function.update_of_ne ?_ _ _
    rintro rfl
    exact hkey _ rfl
  | append | send | release | lookup | flush | sendHeld | flushed | look => rfl

/-- A location stays right. -/
lemma Locates.grows {loc : NodeLocation} {points : List RawPoint} (h : store.Locates s loc points)
    (hgrows : ∀ i, Grows t (s.packs i) (s'.packs i)) : store.Locates s' loc points :=
  { h with bytes := h.bytes.trans ((hgrows _).content.drop _) }

/-- The points of a key stay the same while it is not written. -/
lemma Value.grows {key : VoxelKey} {points : List RawPoint} (h : store.Value s key points)
    (hgrows : ∀ i, Grows t (s.packs i) (s'.packs i)) (hindex : s'.index key = s.index key) :
    store.Value s' key points := by
  rw [Value, hindex]
  rcases h with hnone | ⟨loc, hloc, hlocates⟩
  · exact Or.inl hnone
  · exact Or.inr ⟨loc, hloc, hlocates.grows hgrows⟩

/-- What a call relies on is kept by the steps of the others. -/
lemma PhaseOk.grows {u : T} (hu : u ≠ t) (h : store.PhaseOk s u call phase)
    (hgrows : ∀ i, Grows t (s.packs i) (s'.packs i))
    (hindex : ∀ key points, call = .write key points → s'.index key = s.index key) :
    store.PhaseOk s' u call phase := by
  cases call with
  | write key points =>
    cases phase with
    | called => exact h
    | appending offset byteLen =>
      have hsame := (hgrows _).others u hu h.holder
      exact ⟨h.fits, h.byteLen, hsame ▸ h.holder, hsame ▸ h.cursor, hsame ▸ h.length,
        hsame ▸ h.bytes⟩
    | appended loc => exact Locates.grows h hgrows
    | inserted => exact Value.grows h hgrows (hindex key points rfl)
    | found | flushing | reading => trivial
  | query q key =>
    cases phase with
    | flushing loc =>
      have hsame := (hgrows _).others u hu h.holder
      exact ⟨hsame ▸ h.holder, hsame ▸ h.pending, hsame ▸ h.cursor⟩
    | called | appending | appended | inserted | found | reading => trivial

/-! ## What a step establishes -/

/-- A pack that is changed is idle if its locks are free. -/
lemma idle_setPack {i : ℕ} {p : Pack T} (hp : p.holder = none → Idle p)
    (hidle : PacksIdle s) (j : ℕ) (hj : ((s.setPack i p).packs j).holder = none) :
    Idle ((s.setPack i p).packs j) := by
  by_cases hji : j = i
  · obtain rfl := hji
    rw [PackedState.setPack_self] at hj ⊢
    exact hp hj
  · rw [PackedState.setPack_of_ne s hji] at hj ⊢
    exact hidle j hj

/-- Packs whose locks are free are idle after a step, too. -/
lemma Steps.idle (h : store.Steps t s call phase phase' s') (hphase : store.PhaseOk s t call phase)
    (hidle : PacksIdle s) : PacksIdle s' := by
  intro i hi
  have hlocked : ∀ (p : Pack T) (P : Prop), p.holder = some t → p.holder = none → P := by
    intro p P hsome hnone
    rw [hsome] at hnone
    cases hnone
  cases h with
  | append buf hbuf hnone => exact idle_setPack (hlocked _ _ rfl) hidle i hi
  | send n =>
    refine idle_setPack ?_ hidle i hi
    exact hlocked _ _ hphase.holder
  | release hsent =>
    refine idle_setPack ?_ hidle i hi
    refine fun _ => ⟨hsent, ?_⟩
    rw [Pack.content_release, hphase.length, ← hphase.cursor, ← hphase.byteLen]
    rfl
  | insert => exact hidle i hi
  | lookup => exact hidle i hi
  | flush hnone => exact idle_setPack (hlocked _ _ rfl) hidle i hi
  | sendHeld n =>
    refine idle_setPack ?_ hidle i hi
    exact hlocked _ _ hphase.holder
  | flushed hsent =>
    refine idle_setPack ?_ hidle i hi
    exact fun _ => ⟨hsent, hphase.cursor⟩
  | look => exact hidle i hi

/-- A thread has in its next phase what it relies on there. -/
lemma Steps.phaseOk (h : store.Steps t s call phase phase' s')
    (hphase : store.PhaseOk s t call phase) (hidle : PacksIdle s)
    (hpack : store.currentPackId t < 2 ^ 16) : store.PhaseOk s' t call phase' := by
  cases h with
  | append buf hbuf hnone =>
    obtain ⟨-, hcursor⟩ := hidle _ hnone
    have hfits : store.format.Fits _ := hphase
    obtain rfl := Option.some.inj (hfits.write_eq.symm.trans hbuf)
    refine ⟨hfits, UInt32.toNat_ofNat_of_lt' hfits.bytes, ?_, ?_, ?_, ?_⟩
    · rw [PackedState.setPack_self, Pack.append]
    · rw [PackedState.setPack_self, Pack.append]
    · rw [PackedState.setPack_self, Pack.content_append, List.length_append, hcursor]
    · rw [PackedState.setPack_self, Pack.content_append, hcursor, List.drop_left]
  | send n =>
    refine ⟨hphase.fits, hphase.byteLen, ?_, ?_, ?_, ?_⟩
    · rw [PackedState.setPack_self]
      exact hphase.holder
    · rw [PackedState.setPack_self]
      exact hphase.cursor
    · rw [PackedState.setPack_self, Pack.content_send]
      exact hphase.length
    · rw [PackedState.setPack_self, Pack.content_send]
      exact hphase.bytes
  | release hsent =>
    refine ⟨hphase.fits, hphase.byteLen, UInt32.toNat_ofNat_of_lt' hphase.fits.few, ?_⟩
    simp only [UInt16.toNat_ofNat_of_lt' hpack]
    rw [PackedState.setPack_self, Pack.content_release]
    exact hphase.bytes
  | @insert key points loc =>
    have hlocates : store.Locates s loc points := hphase
    exact Or.inr ⟨loc, Function.update_self _ _ _, { hlocates with }⟩
  | lookup => trivial
  | flush hnone =>
    obtain ⟨-, hcursor⟩ := hidle _ hnone
    refine ⟨?_, ?_, ?_⟩
    · rw [PackedState.setPack_self, Pack.flush]
    · rw [PackedState.setPack_self, Pack.flush]
    · rw [PackedState.setPack_self, Pack.content_flush, ← hcursor, Pack.flush]
  | sendHeld n =>
    refine ⟨?_, ?_, ?_⟩
    · rw [PackedState.setPack_self]
      exact hphase.holder
    · rw [PackedState.setPack_self]
      exact hphase.pending
    · rw [PackedState.setPack_self, Pack.content_send]
      exact hphase.cursor
  | flushed hsent => trivial
  | look => trivial

/-- What a read can return stays the same while others take steps. -/
lemma Ready.grows {u : T} {q : NodeQuery} {key : VoxelKey} {points : List RawPoint}
    (h : store.Ready s u q key phase points) (hgrows : ∀ i, Grows t (s.packs i) (s'.packs i)) :
    store.Ready s' u q key phase points := by
  cases phase with
  | found loc =>
    rcases h with hnone | ⟨l, hl, hlocates⟩
    · exact Or.inl hnone
    · exact Or.inr ⟨l, hl, hlocates.grows hgrows⟩
  | flushing loc => exact Locates.grows h hgrows
  | reading loc views =>
    obtain ⟨hlocates, hviews⟩ := h
    refine ⟨hlocates.grows hgrows, List.forall_mem_cons.mpr ⟨?_, ?_⟩⟩
    · exact (hviews _ List.mem_cons_self).trans ((hgrows _).file.drop _)
    · exact fun bytes hbytes => hviews bytes (List.mem_cons_of_mem _ hbytes)
  | called | appending | appended | inserted => trivial

/-- What a read can return is settled at the lookup, and then stays the same. -/
lemma Steps.ready {q : NodeQuery} {key : VoxelKey} {points : List RawPoint}
    (h : store.Steps t s (.query q key) phase phase' s')
    (hphase : store.PhaseOk s t (.query q key) phase) (hvalue : store.Value s key points)
    (hready : store.Ready s t q key phase points) : store.Ready s' t q key phase' points := by
  have hgrows := h.grows hphase
  cases h with
  | lookup => exact hvalue
  | flush hnone =>
    rcases hready with ⟨hloc, -⟩ | ⟨l, hl, hlocates⟩
    · cases hloc
    · obtain rfl := Option.some.inj hl
      exact Locates.grows hlocates hgrows
  | sendHeld n => exact Locates.grows hready hgrows
  | @flushed key loc hsent =>
    -- the writer has sent all it had, so that the batch is in the file
    have hlocates : store.Locates s loc points := hready
    have hfile : (s.packs loc.packId.toNat).content = (s.packs loc.packId.toNat).file := by
      rw [Pack.content, hsent, hphase.pending, List.append_nil, List.append_nil]
    refine ⟨hlocates.grows hgrows, List.forall_mem_singleton.mpr ?_⟩
    rw [PackedState.setPack_self, Pack.release, ← hfile]
    exact hlocates.bytes
  | look =>
    obtain ⟨hlocates, hviews⟩ := hready
    refine ⟨hlocates, fun bytes hbytes => hviews bytes ?_⟩
    rw [List.mem_cons, List.mem_append, List.mem_singleton] at hbytes
    rw [List.mem_cons]
    tauto

/-! ## What a call returns -/

/-- A write ends well, and then the key has the points. -/
lemma finish_write {fuel : ℕ} {chops : ℕ → ℕ} {key : VoxelKey} {points : List RawPoint}
    {r : NodeAnswer} (hphase : store.PhaseOk s t (.write key points) phase)
    (h : store.finish fuel t chops (.write key points) phase s = some r) :
    r = .written ∧ store.Value s key points := by
  cases phase with
  | called =>
    have hfits : store.format.Fits points := hphase
    simp only [finish, hfits.write_eq, Option.isNone_some] at h
    cases h
  | inserted => exact ⟨(Option.some.inj h).symm, hphase⟩
  | appending | appended | found | flushing | reading => cases h

/-- A query is answered about the points that it found. -/
lemma finish_query (hlz4 : store.format.lz4.Lawful) {fuel : ℕ} (hfuel : 1 < fuel) {chops : ℕ → ℕ}
    {q : NodeQuery} {key : VoxelKey} {points : List RawPoint} {r : NodeAnswer}
    (hready : store.Ready s t q key phase points)
    (h : store.finish fuel t chops (.query q key) phase s = some r) : r = q.answer points := by
  cases phase with
  | found loc =>
    rcases hready with ⟨rfl, rfl⟩ | ⟨l, rfl, hlocates⟩
    · cases q with
      | read => exact (Option.some.inj h).symm
      | count => exact (Option.some.inj h).symm
    · cases q with
      | read => cases h
      | count =>
        obtain rfl := Option.some.inj h
        exact congrArg NodeAnswer.total hlocates.pointCount
  | reading loc views =>
    cases q with
    | read =>
      obtain ⟨hlocates, hviews⟩ := hready
      obtain rfl := Option.some.inj h
      rw [hlocates.byteLen]
      refine hlocates.fits.read_eq hlz4 (delivers_readLimited fun i => hviews _ ?_) hfuel
      simp only [List.getD_eq_getElem?_getD]
      cases hi : views[i]? with
      | none => exact List.mem_cons_self
      | some view => exact List.mem_cons_of_mem _ (List.mem_of_getElem? hi)
    | count => cases h
  | called | appending | appended | inserted | flushing => cases q <;> cases h

/-- The steps of the store do what the steps of a map have to do. -/
theorem mapSteps [DecidableEq T] (hlz4 : store.format.lz4.Lawful) {fuel : ℕ} (hfuel : 1 < fuel)
    (hpack : ∀ t, store.currentPackId t < 2 ^ 16) :
    MapSteps (store.calls fuel) .written NodeQuery.answer store.format.Fits PacksIdle store.PhaseOk
      store.Value store.Ready where
  local_start s t call hfits := by
    cases call with
    | write key points => exact hfits key points rfl
    | query => trivial
  global_step s s' t a call p p' hidle hphase hstep := (steps_of_step hstep).idle hphase hidle
  local_step s s' t a call p p' hidle hphase hstep :=
    (steps_of_step hstep).phaseOk hphase hidle (hpack t)
  local_frame s s' t a call p p' u other pu hphase hu hkeys hstep hother := by
    have h := steps_of_step hstep
    apply PhaseOk.grows hu hother (h.grows hphase)
    rintro key points rfl
    refine h.index fun w hw => ?_
    exact hkeys key w points hw rfl
  val_step s s' t a call p p' key points hphase hstep hkey hvalue :=
    have h := steps_of_step hstep
    hvalue.grows (h.grows hphase) (h.index hkey)
  val_written s t a key points p r hphase hfinish := finish_write hphase hfinish
  ready_start _ _ _ _ _ _ := trivial
  ready_step s s' t a q key p p' points hphase hstep hvalue hready :=
    (steps_of_step hstep).ready hphase hvalue hready
  ready_frame s s' t a call p p' u q key pu points hphase _ hstep _ hready :=
    hready.grows ((steps_of_step hstep).grows hphase)
  ready_finish s t a q key p points r hready hfinish := finish_query hlz4 hfuel hready hfinish

/-- A thread appends to a pack that there is. -/
lemma currentPackId_lt (hpacks : 0 < store.packCount) (t : T) :
    store.currentPackId t < store.packCount := by
  rw [currentPackId]
  cases store.threadIndex t with
  | none => exact hpacks
  | some i => exact Nat.mod_lt _ hpacks

/-- With packs whose numbers are kept in full the store behaves as a map, in every run in which no
two writes of one key overlap. -/
theorem behavesAsMap [DecidableEq T] (hlz4 : store.format.lz4.Lawful) {fuel : ℕ} (hfuel : 1 < fuel)
    (hpacks : 0 < store.packCount ∧ store.packCount ≤ 2 ^ 16)
    {actions : List (Action T NodeCall (ℕ → ℕ))}
    {s : System T NodeCall NodeAnswer (PackedState T) PackedPhase}
    (hrun : (System.start .new).run (store.calls fuel) actions = some s)
    (hapart : WritesApart s.history) (hfits : WritesOnly store.format.Fits s.history) :
    BehavesAsMap [] .written NodeQuery.answer s.history := by
  have hpack : ∀ t, store.currentPackId t < 2 ^ 16 :=
    fun t => lt_of_lt_of_le (currentPackId_lt hpacks.1 t) hpacks.2
  exact (mapSteps hlz4 hfuel hpack).behaves (fun _ _ => ⟨rfl, rfl⟩) (fun _ => Or.inl ⟨rfl, rfl⟩)
    hrun hapart hfits

end PackedNodeStore

end CopcConverter
