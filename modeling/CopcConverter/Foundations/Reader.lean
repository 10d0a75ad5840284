import Mathlib.Data.List.Infix
import Mathlib.Order.Lattice

/-!
# Readers

A reader answers a request for `n` bytes with at most `n` bytes and goes on to its next state.  It
delivers a byte string when every request gets some of the bytes that are left, as few as the reader
likes but at least one while any are left.  An exact read asks again until it has all bytes; a
buffer in front of a reader changes nothing.

A reader of frames also answers with nothing between two frames; joining the frames asks once more
then, so that only the end of the last frame looks like the end.
-/

namespace Reader

/-- How a reader answers a request in a state. -/
abbrev ReadFn (σ : Type) : Type := ℕ → σ → List UInt8 × σ

variable {σ : Type} {read : ReadFn σ} {s : σ} {bytes rest : List UInt8}

/-! ## Delivering bytes -/

/-- A relation between states and the bytes that are left, kept by every request. -/
def Keeps (read : ReadFn σ) (left : σ → List UInt8 → Prop) : Prop :=
  ∀ s bytes, left s bytes → ∀ n, 0 < n → ∃ rest, bytes = (read n s).1 ++ rest ∧
    (read n s).1.length ≤ n ∧ ((read n s).1 = [] → bytes = []) ∧ left (read n s).2 rest

/-- In this state the reader delivers the bytes and then nothing. -/
def Delivers (read : ReadFn σ) (s : σ) (bytes : List UInt8) : Prop :=
  ∃ left, Keeps read left ∧ left s bytes

/-- Delivering is kept by every request. -/
lemma keeps_delivers (read : ReadFn σ) : Keeps read (Delivers read) := by
  rintro s bytes ⟨left, hkeeps, hleft⟩ n hn
  obtain ⟨rest, hbytes, hle, hnil, hnext⟩ := hkeeps s bytes hleft n hn
  exact ⟨rest, hbytes, hle, hnil, left, hkeeps, hnext⟩

/-- Ask until `n` bytes have come; nothing when the reader ends before. -/
def readExact (read : ReadFn σ) (n : ℕ) (s : σ) : Option (List UInt8) × σ :=
  if n = 0 then (some [], s)
  else if (read n s).1.length = 0 then (none, (read n s).2)
  else
    ((readExact read (n - (read n s).1.length) (read n s).2).1.map ((read n s).1 ++ ·),
      (readExact read (n - (read n s).1.length) (read n s).2).2)
termination_by n

/-- An exact read ends when the reader has nothing. -/
lemma readExact_of_nil {n : ℕ} (hn : n ≠ 0) (h : (read n s).1 = []) :
    readExact read n s = (none, (read n s).2) := by
  rw [readExact, if_neg hn, if_pos (by rw [h]; rfl)]

/-- When the bytes are there, an exact read gets them and keeps what the reader keeps. -/
lemma Keeps.readExact {left : σ → List UInt8 → Prop} (hkeeps : Keeps read left)
    (h : left s (bytes ++ rest)) :
    ∃ s', readExact read bytes.length s = (some bytes, s') ∧ left s' rest := by
  induction hn : bytes.length using Nat.strongRecOn generalizing s bytes with
  | ind n ih =>
    rw [Reader.readExact]
    split_ifs with hzero hnone
    · obtain rfl := List.length_eq_zero_iff.mp (hn.trans hzero)
      exact ⟨s, rfl, h⟩
    · obtain ⟨_, -, -, hend, -⟩ := hkeeps s _ h n (Nat.pos_of_ne_zero hzero)
      have hnil := (List.append_eq_nil_iff.mp (hend (List.length_eq_zero_iff.mp hnone))).1
      exact absurd (hn ▸ List.length_eq_zero_iff.mpr hnil) hzero
    · obtain ⟨later, hlater, hle, -, hnext⟩ := hkeeps s _ h n (Nat.pos_of_ne_zero hzero)
      -- what has come is the front of the bytes that are wanted
      obtain ⟨more, hmore⟩ : (read n s).1 <+: bytes :=
        List.prefix_of_prefix_length_le (hlater.symm ▸ List.prefix_append _ _)
          (List.prefix_append _ _) (hn ▸ hle)
      have hrest : later = more ++ rest := by
        rw [← hmore, List.append_assoc] at hlater
        exact (List.append_cancel_left hlater).symm
      have hlen : more.length = n - (read n s).1.length := by
        have h := congrArg List.length hmore
        rw [List.length_append] at h
        omega
      rw [hrest] at hnext
      obtain ⟨s', hread, hleft⟩ := ih more.length (by omega) hnext rfl
      refine ⟨s', ?_, hleft⟩
      rw [← hlen, hread, Option.map_some, hmore]

/-- When too few bytes are left, an exact read gets nothing. -/
lemma Keeps.readExact_of_lt {left : σ → List UInt8 → Prop} (hkeeps : Keeps read left)
    (h : left s bytes) {n : ℕ} (hn : bytes.length < n) : (Reader.readExact read n s).1 = none := by
  induction n using Nat.strongRecOn generalizing s bytes with
  | ind n ih =>
    rw [Reader.readExact]
    split_ifs with hzero hnone
    · omega
    · rfl
    · obtain ⟨later, hlater, hle, -, hnext⟩ := hkeeps s _ h n (Nat.pos_of_ne_zero hzero)
      have hlen := congrArg List.length hlater
      rw [List.length_append] at hlen
      rw [ih (n - (read n s).1.length) (by omega) hnext (by omega)]
      rfl

/-! ## A buffer in front of a reader -/

/-- Bytes read ahead, and the reader behind them. -/
structure Buffered (σ : Type) where
  buf : List UInt8
  inner : σ

/-- Answer from the buffer, which is filled when it is empty; a large request with an empty buffer
goes straight to the reader. -/
def readBuffered (capacity : ℕ) (read : ReadFn σ) : ReadFn (Buffered σ) := fun n s =>
  if s.buf = [] ∧ capacity ≤ n then ((read n s.inner).1, ⟨[], (read n s.inner).2⟩)
  else if s.buf = [] then
    ((read capacity s.inner).1.take n,
      ⟨(read capacity s.inner).1.drop n, (read capacity s.inner).2⟩)
  else (s.buf.take n, ⟨s.buf.drop n, s.inner⟩)

/-- A fresh buffer delivers what its reader delivers. -/
lemma delivers_readBuffered {capacity : ℕ} (hcap : 0 < capacity) (h : Delivers read s bytes) :
    Delivers (readBuffered capacity read) ⟨[], s⟩ bytes := by
  refine ⟨fun b bytes => ∃ rest, bytes = b.buf ++ rest ∧ Delivers read b.inner rest, ?_,
    bytes, rfl, h⟩
  rintro ⟨buf, inner⟩ _ ⟨rest, rfl, hrest⟩ n hn
  rw [readBuffered]
  split_ifs with hlarge hempty
  · obtain ⟨left, hleft, hle, hnil, hnext⟩ := keeps_delivers read inner _ hrest n hn
    obtain ⟨rfl, -⟩ := hlarge
    exact ⟨left, hleft, hle, hnil, left, rfl, hnext⟩
  · obtain ⟨left, hleft, hle, hnil, hnext⟩ := keeps_delivers read inner _ hrest capacity hcap
    obtain rfl := hempty
    refine ⟨(read capacity inner).1.drop n ++ left, ?_, List.length_take_le _ _, ?_, left, rfl,
      hnext⟩
    · rw [← List.append_assoc, List.take_append_drop, ← hleft, List.nil_append]
    · intro htake
      rcases List.take_eq_nil_iff.mp htake with hzero | hnone
      · omega
      · exact hnil hnone
  · refine ⟨buf.drop n ++ rest, ?_, List.length_take_le _ _, ?_, rest, rfl, hrest⟩
    · rw [← List.append_assoc, List.take_append_drop]
    · intro htake
      rcases List.take_eq_nil_iff.mp htake with hzero | hnone
      · omega
      · exact absurd hnone hempty

/-! ## Frames -/

/-- A relation between states and what is left of the frames, kept by every request: at the end of a
frame the answer is nothing, and the next request goes on with the next frame. -/
def KeepsFrames (read : ReadFn σ) (left : σ → List (List UInt8) → Prop) : Prop :=
  (∀ s, left s [] → ∀ n, 0 < n → (read n s).1 = [] ∧ left (read n s).2 []) ∧
  (∀ s frames, left s ([] :: frames) → ∀ n, 0 < n →
    (read n s).1 = [] ∧ left (read n s).2 frames) ∧
  ∀ s frame frames, frame ≠ [] → left s (frame :: frames) → ∀ n, 0 < n →
    ∃ more, frame = (read n s).1 ++ more ∧ (read n s).1.length ≤ n ∧ (read n s).1 ≠ [] ∧
      left (read n s).2 (more :: frames)

/-- In this state the reader delivers the frames, with nothing at the end of each, and then
nothing. -/
def DeliversFrames (read : ReadFn σ) (s : σ) (frames : List (List UInt8)) : Prop :=
  ∃ left, KeepsFrames read left ∧ left s frames

/-- Ask once more when the answer is nothing. -/
def joinFrames (read : ReadFn σ) : ReadFn σ := fun n s =>
  if n = 0 then ([], s)
  else if (read n s).1 = [] then read n (read n s).2
  else read n s

/-- Frames that hold something, joined, are one byte string. -/
lemma delivers_joinFrames {frames : List (List UInt8)} (hne : ∀ f ∈ frames, f ≠ [])
    (h : DeliversFrames read s frames) : Delivers (joinFrames read) s frames.flatten := by
  obtain ⟨left, ⟨hend, hgap, hframe⟩, hleft⟩ := h
  refine ⟨fun s bytes => ∃ frames, bytes = frames.flatten ∧ left s frames ∧
    ∀ f ∈ frames.tail, f ≠ [], ?_, frames, rfl, hleft, fun f hf => hne f (List.mem_of_mem_tail hf)⟩
  rintro s _ ⟨frames, rfl, hs, htail⟩ n hn
  -- a request inside a frame that still holds something
  have hinside : ∀ s frame frames, frame ≠ [] → left s (frame :: frames) →
      (∀ f ∈ frames, f ≠ []) → ∃ rest, (frame :: frames).flatten = (read n s).1 ++ rest ∧
        (read n s).1.length ≤ n ∧ ((read n s).1 = [] → (frame :: frames).flatten = []) ∧
        ∃ frames', rest = frames'.flatten ∧ left (read n s).2 frames' ∧
          ∀ f ∈ frames'.tail, f ≠ [] := by
    intro s frame frames hframe' hs hall
    obtain ⟨more, hmore, hle, hsome, hnext⟩ := hframe s frame frames hframe' hs n hn
    refine ⟨(more :: frames).flatten, ?_, hle, fun hnil => absurd hnil hsome, more :: frames, rfl,
      hnext, hall⟩
    rw [List.flatten_cons, List.flatten_cons, ← List.append_assoc, ← hmore]
  rw [joinFrames, if_neg (Nat.pos_iff_ne_zero.mp hn)]
  obtain _ | ⟨frame, frames⟩ := frames
  · obtain ⟨hnil, hs'⟩ := hend s hs n hn
    obtain ⟨hnil', hs''⟩ := hend _ hs' n hn
    rw [if_pos hnil]
    exact ⟨[], by rw [hnil']; rfl, by rw [hnil']; exact Nat.zero_le _, fun _ => rfl, [], rfl, hs'',
      fun f hf => absurd hf List.not_mem_nil⟩
  · obtain rfl | hframe' := eq_or_ne frame []
    · obtain ⟨hnil, hs'⟩ := hgap s frames hs n hn
      rw [if_pos hnil, List.flatten_cons, List.nil_append]
      obtain _ | ⟨frame', frames'⟩ := frames
      · obtain ⟨hnil', hs''⟩ := hend _ hs' n hn
        exact ⟨[], by rw [hnil']; rfl, by rw [hnil']; exact Nat.zero_le _, fun _ => rfl, [], rfl,
          hs'', fun f hf => absurd hf List.not_mem_nil⟩
      · exact hinside _ frame' frames' (htail frame' List.mem_cons_self) hs'
          fun f hf => htail f (List.mem_cons_of_mem _ hf)
    · obtain ⟨_, -, -, hsome, -⟩ := hframe s frame frames hframe' hs n hn
      rw [if_neg hsome]
      exact hinside s frame frames hframe' hs htail

/-! ## Reading a file -/

/-- An open file: its bytes, the position in it, and how many more bytes than one each of the next
reads may return. -/
structure FileHandle where
  bytes : List UInt8
  pos : ℕ
  chops : ℕ → ℕ

namespace FileHandle

/-- Read at the position. -/
def readSome : ReadFn FileHandle := fun n f =>
  let out := (f.bytes.drop f.pos).take (min n (f.chops 0 + 1))
  (out, { f with pos := f.pos + out.length, chops := fun i => f.chops (i + 1) })

/-- Move the position, which may go beyond the end. -/
def seek (f : FileHandle) (d : ℕ) : FileHandle := { f with pos := f.pos + d }

/-- The bytes from the position to the end. -/
def At (f : FileHandle) (bytes : List UInt8) : Prop :=
  ∃ front, f.bytes = front ++ bytes ∧ f.pos = front.length

/-- A file delivers the bytes from its position on. -/
lemma keeps_at : Keeps readSome At := by
  rintro ⟨_, _, chops⟩ bytes ⟨front, rfl, rfl⟩ n hn
  have hout : (readSome n ⟨front ++ bytes, front.length, chops⟩).1 =
      bytes.take (min n (chops 0 + 1)) := by
    rw [readSome, List.drop_left]
  refine ⟨bytes.drop (min n (chops 0 + 1)), ?_, ?_, ?_, ?_⟩
  · rw [hout, List.take_append_drop]
  · rw [hout]
    exact (List.length_take_le _ _).trans (min_le_left _ _)
  · intro hnil
    rw [hout] at hnil
    rcases List.take_eq_nil_iff.mp hnil with hzero | hnone
    · omega
    · exact hnone
  · refine ⟨front ++ bytes.take (min n (chops 0 + 1)), ?_, ?_⟩
    · rw [List.append_assoc, List.take_append_drop]
      rfl
    · rw [List.length_append, ← hout]
      rfl

lemma delivers_of_at {f : FileHandle} {bytes : List UInt8} (h : f.At bytes) :
    Delivers readSome f bytes := ⟨At, keeps_at, h⟩

/-- Seeking skips bytes. -/
lemma at_seek {f : FileHandle} {skipped rest : List UInt8} (h : f.At (skipped ++ rest)) :
    (f.seek skipped.length).At rest := by
  obtain ⟨front, hbytes, hpos⟩ := h
  refine ⟨front ++ skipped, ?_, ?_⟩
  · rw [List.append_assoc]
    exact hbytes
  · rw [List.length_append]
    exact congrArg (· + skipped.length) hpos

end FileHandle

/-! ## Reading a part of a file that grows -/

/-- A reader that stops after some bytes. -/
structure Limited (σ : Type) where
  limit : ℕ
  inner : σ

/-- Ask for no more than the limit leaves. -/
def readLimited (read : ReadFn σ) : ReadFn (Limited σ) := fun n s =>
  if s.limit = 0 then ([], s)
  else
    let r := read (min n s.limit) s.inner
    (r.1, ⟨s.limit - r.1.length, r.2⟩)

/-- An open file that others write to: what the file is at each of the next reads, the position, and
how many more bytes than one each of these reads may return. -/
structure LiveFile where
  views : ℕ → List UInt8
  pos : ℕ
  chops : ℕ → ℕ

/-- Read at the position, from what the file is now. -/
def LiveFile.readSome : ReadFn LiveFile := fun n f =>
  let out := ((f.views 0).drop f.pos).take (min n (f.chops 0 + 1))
  (out, ⟨fun i => f.views (i + 1), f.pos + out.length, fun i => f.chops (i + 1)⟩)

/-- Bytes that are at the position in all views are delivered, whatever comes after them. -/
lemma delivers_readLimited {f : LiveFile} (h : ∀ i, bytes <+: (f.views i).drop f.pos) :
    Delivers (readLimited LiveFile.readSome) ⟨bytes.length, f⟩ bytes := by
  refine ⟨fun s bytes => s.limit = bytes.length ∧
    ∀ i, bytes <+: (s.inner.views i).drop s.inner.pos, ?_, rfl, h⟩
  rintro ⟨_, views, pos, chops⟩ bytes ⟨rfl, hviews⟩ n hn
  rw [readLimited]
  split_ifs with hzero
  · obtain rfl := List.length_eq_zero_iff.mp hzero
    exact ⟨[], rfl, Nat.zero_le _, fun _ => rfl, rfl, hviews⟩
  · simp only at hzero hviews
    -- the first view begins with the bytes, and no more of it is asked for
    have hout : (LiveFile.readSome (min n bytes.length) ⟨views, pos, chops⟩).1 =
        bytes.take (min (min n bytes.length) (chops 0 + 1)) := by
      obtain ⟨after, hafter⟩ := hviews 0
      rw [LiveFile.readSome]
      simp only
      rw [← hafter, List.take_append_of_le_length]
      omega
    have hlen : (bytes.take (min (min n bytes.length) (chops 0 + 1))).length =
        min (min n bytes.length) (chops 0 + 1) := by
      rw [List.length_take]
      omega
    refine ⟨bytes.drop (min (min n bytes.length) (chops 0 + 1)), ?_, ?_, ?_, ?_, fun i => ?_⟩
    · rw [hout, List.take_append_drop]
    · rw [hout, hlen]
      omega
    · intro hnil
      rw [hout, ← List.length_eq_zero_iff, hlen] at hnil
      omega
    · simp only [hout, hlen, List.length_drop]
    · have hpos : (LiveFile.readSome (min n bytes.length) ⟨views, pos, chops⟩).2.pos =
          pos + min (min n bytes.length) (chops 0 + 1) := by
        rw [← hlen, ← hout]
        rfl
      simp only [hpos]
      rw [← List.drop_drop]
      exact List.IsPrefix.drop (hviews (i + 1)) _

end Reader
