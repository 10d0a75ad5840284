import Mathlib.Data.List.Basic
import Mathlib.Tactic.SplitIfs

/-!
# Buffered writers

A buffered writer holds back bytes until there are too many of them.  Data that fits the rest of the
buffer is held back; otherwise what was held back is sent on, and the new data is held back, or sent
on at once when it is larger than the buffer.  Code that writes a record may hand it over in one
piece or in many; the pieces are a parameter here, since a reader of the code cannot tell them from
the call.

What matters to a user is a single fact: what was sent on followed by what is held back is
everything that was written, however the data is cut into pieces, and what is held back never
exceeds the capacity.  Whoever flushes a writer at the end therefore finds all bytes in the file, in
order.
-/

namespace BufWriter

/-- Write data when `pending` is held back: what is sent on, and what is held back then.  Data that
fits is held back; else what was held back is sent on first, and large data goes straight on. -/
def writeAll (capacity : ℕ) (pending data : List UInt8) : List UInt8 × List UInt8 :=
  if data.length < capacity - pending.length then ([], pending ++ data)
  else if capacity - pending.length < data.length then
    if capacity ≤ data.length then (pending ++ data, []) else (pending, data)
  else
    if capacity ≤ data.length then (data, pending) else ([], pending ++ data)

/-- No byte is lost, none comes twice, and all stay in order. -/
lemma writeAll_spec (capacity : ℕ) (pending data : List UInt8) :
    (writeAll capacity pending data).1 ++ (writeAll capacity pending data).2 =
      pending ++ data := by
  rw [writeAll]
  split_ifs with hfits hover hlarge hlarge
  · rfl
  · rw [List.append_nil]
  · rfl
  · -- large data that fits exactly: nothing was held back, or there is no data
    obtain hnil | hnil : pending = [] ∨ data = [] := by
      rw [← List.length_eq_zero_iff, ← List.length_eq_zero_iff]
      omega
    · rw [hnil, List.append_nil, List.nil_append]
    · rw [hnil, List.append_nil, List.nil_append]
  · rfl

/-- Write the pieces of some data one after the other. -/
def writePieces (capacity : ℕ) : List UInt8 → List (List UInt8) → List UInt8 × List UInt8
  | pending, [] => ([], pending)
  | pending, piece :: pieces =>
    let w := writeAll capacity pending piece
    (w.1 ++ (writePieces capacity w.2 pieces).1, (writePieces capacity w.2 pieces).2)

/-- However the data is cut, it is sent on or held back behind what was held back before. -/
lemma writePieces_spec (capacity : ℕ) (pending : List UInt8) (pieces : List (List UInt8)) :
    (writePieces capacity pending pieces).1 ++ (writePieces capacity pending pieces).2 =
      pending ++ pieces.flatten := by
  induction pieces generalizing pending with
  | nil => rw [writePieces, List.flatten_nil, List.append_nil, List.nil_append]
  | cons piece pieces ih =>
    rw [writePieces, List.append_assoc, ih, List.flatten_cons, ← List.append_assoc,
      writeAll_spec, List.append_assoc]

/-- How data reaches a writer: in which pieces. -/
structure Pieces where
  cut : List UInt8 → List (List UInt8)
  flatten_cut : ∀ data, (cut data).flatten = data

/-- All data in one piece. -/
def Pieces.whole : Pieces := ⟨fun data => [data], fun data => List.append_nil data⟩

end BufWriter
