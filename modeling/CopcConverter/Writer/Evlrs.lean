import CopcConverter.Writer.Vlrs

/-!
# Extended records

The records behind the point data: the pages of the hierarchy, and the temporal index when one is
asked for.  A record has a header of 60 bytes with a user id, a record id and the length of the
payload.  The length has 64 bits here, unlike in the records before the point data, so that a reader
that walks the records finds every payload, whatever its size.

Two readers are modelled.  One walks the records from a position on, as many as the header counts;
it gets back every name and every payload, and ends where the last record does.  The other one, as
the inspection tool has it, only reads headers and stops at the record with a given name; it finds
the place and the length of the payload behind records of other names.
-/

namespace CopcConverter

open Bytes

/-- The size of the header of an extended record. -/
def evlrHeaderSize : ℕ := 60

/-- Write an extended record: its header and the payload. -/
def writeEvlr (vlr : Vlr) (description : List UInt8) : List UInt8 :=
  toLE 2 0 ++ (padded 16 vlr.userId ++ (toLE 2 vlr.recordId.toNat ++ (toLE 8 vlr.data.length ++
    (padded 32 description ++ vlr.data))))

@[simp] lemma length_writeEvlr (vlr : Vlr) (description : List UInt8) :
    (writeEvlr vlr description).length = evlrHeaderSize + vlr.data.length := by
  simp only [writeEvlr, evlrHeaderSize, List.length_append, length_toLE, length_padded]
  omega

/-- The payload follows a header of fixed size. -/
lemma exists_writeEvlr_eq (vlr : Vlr) (description : List UInt8) : ∃ header : List UInt8,
    header.length = evlrHeaderSize ∧ writeEvlr vlr description = header ++ vlr.data := by
  refine ⟨toLE 2 0 ++ (padded 16 vlr.userId ++ (toLE 2 vlr.recordId.toNat ++
    (toLE 8 vlr.data.length ++ padded 32 description))), ?_, ?_⟩
  · simp only [evlrHeaderSize, List.length_append, length_toLE, length_padded]
  · simp only [writeEvlr, List.append_assoc]

/-- The bytes of some extended records. -/
def writeEvlrs (evlrs : List (Vlr × List UInt8)) : List UInt8 :=
  evlrs.flatMap fun v => writeEvlr v.1 v.2

/-- Walk the extended records of a file from a position on, each as long as its length field
says. -/
def readEvlrs (file : List UInt8) : ℕ → ℕ → Option (List Vlr × ℕ)
  | 0, pos => some ([], pos)
  | n + 1, pos =>
    let recordLength := ofLE (slice file (pos + 20) 8)
    if file.length < pos + evlrHeaderSize + recordLength then none
    else (readEvlrs file n (pos + evlrHeaderSize + recordLength)).map fun r =>
      ({ userId := trimEnd (fun b => b = 0) (slice file (pos + 2) 16)
         recordId := UInt16.ofNat (ofLE (slice file (pos + 18) 2))
         data := slice file (pos + evlrHeaderSize) recordLength } :: r.1, r.2)

/-- The fields of an extended record in its bytes. -/
lemma slice_writeEvlr (vlr : Vlr) (description rest : List UInt8) :
    slice (writeEvlr vlr description ++ rest) 2 16 = padded 16 vlr.userId ∧
      slice (writeEvlr vlr description ++ rest) 18 2 = toLE 2 vlr.recordId.toNat ∧
      slice (writeEvlr vlr description ++ rest) 20 8 = toLE 8 vlr.data.length ∧
      slice (writeEvlr vlr description ++ rest) evlrHeaderSize vlr.data.length = vlr.data := by
  simp only [writeEvlr, evlrHeaderSize, List.append_assoc]
  refine ⟨?_, ?_, ?_, ?_⟩
  · rw [slice_skip _ _ (by simp), length_toLE, Nat.sub_self, slice_here _ (length_padded 16 _)]
  · rw [slice_skip _ _ (by simp), length_toLE, slice_skip _ _ (by simp), length_padded]
    exact slice_here _ (length_toLE 2 _)
  · rw [slice_skip _ _ (by simp), length_toLE, slice_skip _ _ (by simp), length_padded,
      slice_skip _ _ (by simp), length_toLE]
    exact slice_here _ (length_toLE 8 _)
  · rw [slice_skip _ _ (by simp), length_toLE, slice_skip _ _ (by simp), length_padded,
      slice_skip _ _ (by simp), length_toLE, slice_skip _ _ (by simp), length_toLE,
      slice_skip _ _ (by simp), length_padded]
    exact slice_here _ rfl

/-- What a reader finds at the start of a record. -/
lemma readEvlrHeader {v : Vlr × List UInt8} (hname : WellNamed v.1) (before rest : List UInt8)
    (hlen : v.1.data.length < 2 ^ 64) :
    trimEnd (fun b => b = 0)
        (slice (before ++ (writeEvlr v.1 v.2 ++ rest)) (before.length + 2) 16) = v.1.userId ∧
      UInt16.ofNat (ofLE (slice (before ++ (writeEvlr v.1 v.2 ++ rest)) (before.length + 18) 2)) =
        v.1.recordId ∧
      ofLE (slice (before ++ (writeEvlr v.1 v.2 ++ rest)) (before.length + 20) 8) =
        v.1.data.length ∧
      slice (before ++ (writeEvlr v.1 v.2 ++ rest)) (before.length + evlrHeaderSize)
        v.1.data.length = v.1.data := by
  obtain ⟨huser, hid, hlength, hdata⟩ := slice_writeEvlr v.1 v.2 rest
  rw [slice_from, slice_from, slice_from, slice_from, huser, hid, hlength]
  refine ⟨trimEnd_padded hname.1 hname.2, ?_, ?_, hdata⟩
  · rw [ofLE_toLE, Nat.mod_eq_of_lt (show v.1.recordId.toNat < 256 ^ 2 from
      v.1.recordId.toNat_lt), UInt16.ofNat_toNat]
  · rw [ofLE_toLE]
    exact Nat.mod_eq_of_lt hlen

/-- **The extended records are read back**, and the walk ends where they end. -/
theorem readEvlrs_writeEvlrs {evlrs : List (Vlr × List UInt8)}
    (hnames : ∀ v ∈ evlrs, WellNamed v.1) (before rest : List UInt8)
    (hlen : (writeEvlrs evlrs).length < 2 ^ 64) :
    readEvlrs (before ++ (writeEvlrs evlrs ++ rest)) evlrs.length before.length =
      some (evlrs.map Prod.fst, before.length + (writeEvlrs evlrs).length) := by
  induction evlrs generalizing before with
  | nil => rfl
  | cons v evlrs ih =>
    have hwrite : writeEvlrs (v :: evlrs) = writeEvlr v.1 v.2 ++ writeEvlrs evlrs :=
      List.flatMap_cons
    rw [hwrite, List.length_append, length_writeEvlr] at hlen
    obtain ⟨huser, hid, hlength, hdata⟩ := readEvlrHeader (hnames v List.mem_cons_self) before
      (writeEvlrs evlrs ++ rest) (by omega)
    have hfits : ¬ (before ++ (writeEvlr v.1 v.2 ++ (writeEvlrs evlrs ++ rest))).length <
        before.length + evlrHeaderSize + v.1.data.length := by
      simp only [List.length_append, length_writeEvlr]
      omega
    have hpos : before.length + evlrHeaderSize + v.1.data.length =
        (before ++ writeEvlr v.1 v.2).length := by
      rw [List.length_append, length_writeEvlr, Nat.add_assoc]
    have hrest := ih (fun w hw => hnames w (List.mem_cons_of_mem _ hw))
      (before ++ writeEvlr v.1 v.2) (by omega)
    rw [List.append_assoc] at hrest
    rw [hwrite, List.append_assoc, List.length_cons, readEvlrs]
    simp only [huser, hid, hlength, hdata, if_neg hfits]
    rw [hpos, hrest, Option.map_some, List.map_cons, List.length_append, List.length_append,
      Nat.add_assoc]

/-! ## Finding a record -/

/-- Scan the headers of extended records from a position on for a record: where its payload lies
and how long it is. -/
def findEvlr (file userId : List UInt8) (recordId : UInt16) : ℕ → ℕ → Option (ℕ × ℕ)
  | 0, _ => none
  | n + 1, pos =>
    let dataLength := ofLE (slice file (pos + 20) 8)
    if file.length < pos + evlrHeaderSize then none
    else if trimEnd (fun b => b = 0) (slice file (pos + 2) 16) = userId ∧
        UInt16.ofNat (ofLE (slice file (pos + 18) 2)) = recordId then
      some (pos + evlrHeaderSize, dataLength)
    else findEvlr file userId recordId n (pos + evlrHeaderSize + dataLength)

/-- **A record is found** behind records of other names. -/
theorem findEvlr_writeEvlrs {front later : List (Vlr × List UInt8)} {v : Vlr × List UInt8}
    (hnames : ∀ u ∈ front ++ [v], WellNamed u.1)
    (hother : ∀ u ∈ front, ¬ (u.1.userId = v.1.userId ∧ u.1.recordId = v.1.recordId))
    (before rest : List UInt8) (hlen : (writeEvlrs (front ++ v :: later)).length < 2 ^ 64) :
    findEvlr (before ++ (writeEvlrs (front ++ v :: later) ++ rest)) v.1.userId v.1.recordId
        (front ++ v :: later).length before.length =
      some (before.length + (writeEvlrs front).length + evlrHeaderSize, v.1.data.length) := by
  induction front generalizing before with
  | nil =>
    have hwrite : writeEvlrs ([] ++ v :: later) = writeEvlr v.1 v.2 ++ writeEvlrs later :=
      List.flatMap_cons
    rw [hwrite, List.length_append, length_writeEvlr] at hlen
    obtain ⟨huser, hid, hlength, -⟩ := @readEvlrHeader v
      (hnames v (List.mem_append_right _ (List.mem_singleton_self v))) before
      (writeEvlrs later ++ rest) (by omega)
    have hfits : ¬ (before ++ (writeEvlr v.1 v.2 ++ (writeEvlrs later ++ rest))).length <
        before.length + evlrHeaderSize := by
      simp only [List.length_append, length_writeEvlr]
      omega
    rw [hwrite, List.append_assoc, List.nil_append, List.length_cons, findEvlr]
    simp only [if_neg hfits, huser, hid, hlength, and_self, if_true]
    rfl
  | cons u front ih =>
    have hwrite : writeEvlrs (u :: front ++ v :: later) =
        writeEvlr u.1 u.2 ++ writeEvlrs (front ++ v :: later) := List.flatMap_cons
    have hfront : writeEvlrs (u :: front) = writeEvlr u.1 u.2 ++ writeEvlrs front :=
      List.flatMap_cons
    rw [hwrite, List.length_append, length_writeEvlr] at hlen
    obtain ⟨huser, hid, hlength, -⟩ := @readEvlrHeader u (hnames u List.mem_cons_self) before
      (writeEvlrs (front ++ v :: later) ++ rest) (by omega)
    have hfits : ¬ (before ++ (writeEvlr u.1 u.2 ++ (writeEvlrs (front ++ v :: later) ++
        rest))).length < before.length + evlrHeaderSize := by
      simp only [List.length_append, length_writeEvlr]
      omega
    have hpos : before.length + evlrHeaderSize + u.1.data.length =
        (before ++ writeEvlr u.1 u.2).length := by
      rw [List.length_append, length_writeEvlr, Nat.add_assoc]
    have hrest := ih (fun w hw => hnames w (List.mem_cons_of_mem _ hw))
      (fun w hw => hother w (List.mem_cons_of_mem _ hw)) (before ++ writeEvlr u.1 u.2) (by omega)
    rw [List.append_assoc] at hrest
    rw [hwrite, List.append_assoc, List.cons_append, List.length_cons, findEvlr]
    simp only [if_neg hfits, huser, hid, hlength, if_neg (hother u List.mem_cons_self)]
    rw [hpos, hrest, hfront, List.length_append, List.length_append, Nat.add_assoc before.length]

end CopcConverter
