import Mathlib

/-!
# UTF-8

Texts reach the program as bytes, and the program decides for itself what to do with bytes that are
no text.  Here are the two functions of the standard library that it calls: whether a list of bytes
is UTF-8, and the lossy decoding, in which every maximal piece that cannot be continued to a
character is replaced by one U+FFFD.

Both are loops over the first piece of what is left.  A piece is a character of one to four bytes,
with the second byte restricted as the standard demands (no overlong forms, no surrogates, nothing
above U+10FFFF), or as many bytes as could still have begun one.  Lossy decoding keeps ASCII texts
as they are, and a byte that no character contains is in no valid text; these two facts are what the
parsers of names and of coordinate systems need.
-/

namespace Utf8

/-- A continuation byte. -/
def isCont (b : UInt8) : Bool := 0x80 ≤ b && b ≤ 0xBF

/-- The second bytes that may follow the first byte of a three-byte character. -/
def second3 (b₀ b₁ : UInt8) : Bool :=
  if b₀ = 0xE0 then 0xA0 ≤ b₁ && b₁ ≤ 0xBF
  else if b₀ = 0xED then 0x80 ≤ b₁ && b₁ ≤ 0x9F
  else isCont b₁

/-- The second bytes that may follow the first byte of a four-byte character. -/
def second4 (b₀ b₁ : UInt8) : Bool :=
  if b₀ = 0xF0 then 0x90 ≤ b₁ && b₁ ≤ 0xBF
  else if b₀ = 0xF4 then 0x80 ≤ b₁ && b₁ ≤ 0x8F
  else isCont b₁

/-- The first piece of a non-empty byte list: whether it is a character, and its length.  Bytes
beyond the end read as zero, which continues nothing. -/
def piece (b₀ : UInt8) (bs : List UInt8) : Bool × ℕ :=
  let b₁ := bs.getD 0 0
  let b₂ := bs.getD 1 0
  let b₃ := bs.getD 2 0
  if b₀ < 0x80 then (true, 1)
  else if 0xC2 ≤ b₀ && b₀ ≤ 0xDF then if isCont b₁ then (true, 2) else (false, 1)
  else if 0xE0 ≤ b₀ && b₀ ≤ 0xEF then
    if second3 b₀ b₁ then if isCont b₂ then (true, 3) else (false, 2) else (false, 1)
  else if 0xF0 ≤ b₀ && b₀ ≤ 0xF4 then
    if second4 b₀ b₁ then
      if isCont b₂ then if isCont b₃ then (true, 4) else (false, 3) else (false, 2)
    else (false, 1)
  else (false, 1)

/-- The bytes are characters one after the other; the fuel is at least the number of bytes. -/
def validFrom : ℕ → List UInt8 → Bool
  | _, [] => true
  | 0, _ :: _ => false
  | fuel + 1, b :: bs => (piece b bs).1 && validFrom fuel ((b :: bs).drop (piece b bs).2)

/-- The bytes are UTF-8. -/
def valid (bs : List UInt8) : Bool := validFrom bs.length bs

/-- The bytes of U+FFFD. -/
def replacement : List UInt8 := [0xEF, 0xBF, 0xBD]

/-- Replace the pieces that are no characters; the fuel is at least the number of bytes. -/
def lossyFrom : ℕ → List UInt8 → List UInt8
  | _, [] => []
  | 0, _ :: _ => []
  | fuel + 1, b :: bs =>
    (if (piece b bs).1 then (b :: bs).take (piece b bs).2 else replacement) ++
      lossyFrom fuel ((b :: bs).drop (piece b bs).2)

/-- Lossy decoding. -/
def lossy (bs : List UInt8) : List UInt8 := lossyFrom bs.length bs

/-- A continuation byte is below `0xF5`. -/
lemma lt_of_isCont {b : UInt8} (h : isCont b = true) : b < 0xF5 := by
  simp only [isCont, Bool.and_eq_true, decide_eq_true_eq] at h
  exact UInt8.lt_of_le_of_lt h.2 (by decide)

lemma lt_of_second3 {b₀ b₁ : UInt8} (h : second3 b₀ b₁ = true) : b₁ < 0xF5 := by
  unfold second3 at h
  split_ifs at h
  · simp only [Bool.and_eq_true, decide_eq_true_eq] at h
    exact UInt8.lt_of_le_of_lt h.2 (by decide)
  · simp only [Bool.and_eq_true, decide_eq_true_eq] at h
    exact UInt8.lt_of_le_of_lt h.2 (by decide)
  · exact lt_of_isCont h

lemma lt_of_second4 {b₀ b₁ : UInt8} (h : second4 b₀ b₁ = true) : b₁ < 0xF5 := by
  unfold second4 at h
  split_ifs at h
  · simp only [Bool.and_eq_true, decide_eq_true_eq] at h
    exact UInt8.lt_of_le_of_lt h.2 (by decide)
  · simp only [Bool.and_eq_true, decide_eq_true_eq] at h
    exact UInt8.lt_of_le_of_lt h.2 (by decide)
  · exact lt_of_isCont h

/-- The bytes of a short piece, one by one. -/
lemma mem_take_cons {b x : UInt8} {bs : List UInt8} {k : ℕ} (h : x ∈ (b :: bs).take (k + 1)) :
    x = b ∨ ∃ i < k, x = bs.getD i 0 := by
  rw [List.take_succ_cons] at h
  rcases List.mem_cons.mp h with h | h
  · exact Or.inl h
  · obtain ⟨i, hi, rfl⟩ := List.mem_iff_getElem.mp h
    rw [List.length_take] at hi
    refine Or.inr ⟨i, by omega, ?_⟩
    rw [List.getElem_take, List.getD_eq_getElem?_getD, List.getElem?_eq_getElem (by omega),
      Option.getD_some]

/-- The bytes of a character are below `0xF5`. -/
lemma lt_of_mem_piece {b : UInt8} {bs : List UInt8} (h : (piece b bs).1 = true) {x : UInt8}
    (hx : x ∈ (b :: bs).take (piece b bs).2) : x < 0xF5 := by
  revert h hx
  unfold piece
  simp only [Bool.and_eq_true, decide_eq_true_eq]
  split_ifs with h1 h2 hc1 h3 hs3 hc2 h4 hs4 hc2 hc3 <;> intro h hx
  · -- one byte
    rcases mem_take_cons hx with rfl | ⟨i, hi, -⟩
    · exact UInt8.lt_trans h1 (by decide)
    · omega
  · -- two bytes
    rcases mem_take_cons hx with rfl | ⟨i, hi, rfl⟩
    · exact UInt8.lt_of_le_of_lt h2.2 (by decide)
    · obtain rfl : i = 0 := by omega
      exact lt_of_isCont hc1
  · cases h
  · -- three bytes
    rcases mem_take_cons hx with rfl | ⟨i, hi, rfl⟩
    · exact UInt8.lt_of_le_of_lt h3.2 (by decide)
    · obtain rfl | rfl : i = 0 ∨ i = 1 := by omega
      · exact lt_of_second3 hs3
      · exact lt_of_isCont hc2
  · cases h
  · cases h
  · -- four bytes
    rcases mem_take_cons hx with rfl | ⟨i, hi, rfl⟩
    · exact UInt8.lt_of_le_of_lt h4.2 (by decide)
    · obtain rfl | rfl | rfl : i = 0 ∨ i = 1 ∨ i = 2 := by omega
      · exact lt_of_second4 hs4
      · exact lt_of_isCont hc2
      · exact lt_of_isCont hc3
  · cases h
  · cases h
  · cases h
  · cases h

/-- `0xFF` occurs in no UTF-8 text. -/
lemma notMem_of_valid {bs : List UInt8} (h : valid bs = true) : (0xFF : UInt8) ∉ bs := by
  have hfuel : ∀ fuel bs, validFrom fuel bs = true → (0xFF : UInt8) ∉ bs := by
    intro fuel
    induction fuel with
    | zero =>
      intro bs h
      cases bs with
      | nil => exact List.not_mem_nil
      | cons b bs => cases h
    | succ fuel ih =>
      intro bs h hmem
      cases bs with
      | nil => cases hmem
      | cons b bs =>
        rw [validFrom, Bool.and_eq_true] at h
        rw [← List.take_append_drop (piece b bs).2 (b :: bs)] at hmem
        rcases List.mem_append.mp hmem with hx | hx
        · exact absurd (lt_of_mem_piece h.1 hx) (by decide)
        · exact ih _ h.2 hx
  exact hfuel _ _ h

/-- An ASCII text decodes to itself. -/
lemma lossy_of_ascii {bs : List UInt8} (h : ∀ b ∈ bs, b < 0x80) : lossy bs = bs := by
  have hfuel : ∀ fuel bs, bs.length ≤ fuel → (∀ b ∈ bs, b < 0x80) → lossyFrom fuel bs = bs := by
    intro fuel
    induction fuel with
    | zero =>
      intro bs hlen _
      rw [List.length_eq_zero_iff.mp (Nat.le_zero.mp hlen), lossyFrom]
    | succ fuel ih =>
      intro bs hlen h
      cases bs with
      | nil => rfl
      | cons b bs =>
        have hpiece : piece b bs = (true, 1) := by
          rw [piece, if_pos (h b List.mem_cons_self)]
        have hrest := ih bs (by simpa using hlen) (fun x hx => h x (List.mem_cons_of_mem b hx))
        rw [lossyFrom, hpiece]
        simp only [if_true, List.take_succ_cons, List.take_zero, List.drop_succ_cons,
          List.drop_zero, List.singleton_append, hrest]
  exact hfuel _ bs le_rfl h

end Utf8
