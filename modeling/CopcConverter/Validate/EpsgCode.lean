import CopcConverter.Validate.Crs

/-!
# The EPSG code at the end of a WKT text

The walk back over the last bytes of a text reads a number from its last digit on, in `u16`
arithmetic: the code so far, and the weight of the next place.  Both the product for the weight and
the sum for the code are checked, and a failed check ends the walk without a code.

With the fifth digit the weight of the place after it no longer fits `u16`, so that a code of five
digits is never found, although the codes taken for EPSG codes reach up to 32766 and the source
speaks of four to five digits.  Codes of up to four digits are found when at most a few bytes follow
them.  In a text with a vertical keyword this holds for either part: without the horizontal code
nothing is found, and a vertical code that is not found is left out.
-/

namespace CopcConverter

open Bytes

/-! ## Texts that end in a code -/

/-- The keywords of a vertical CRS, in the order in which they are looked for. -/
def verticalKeywords : List (List UInt8) := [ascii "VERTCRS", ascii "VERTICALCRS", ascii "VERT_CS"]

/-- The text ends in the number `code`, after a byte that is no digit and before a few that are
none: what follows its first digit fits the ten bytes that are looked at. -/
def EndsInCode (text : List UInt8) (code : UInt16) : Prop :=
  ∃ before after, text = before ++ decimal code.toNat ++ after ∧
    (∀ b ∈ before.getLast?, isAsciiDigit b = false) ∧ (∀ b ∈ after, isAsciiDigit b = false) ∧
    (decimal code.toNat ++ trimEnd isAsciiWhitespace after).length ≤ 10

/-- The text is split at the first occurrence of the first vertical keyword that occurs. -/
def VerticalSplit (wkt before after : List UInt8) : Prop :=
  ∃ earlier keyword later, verticalKeywords = earlier ++ keyword :: later ∧
    (∀ k ∈ earlier, ¬ k <:+: wkt) ∧ FirstSplit keyword wkt before after

/-! ## The walk -/

/-- The bytes of the decimal digits. -/
def digitByte (k : ℕ) : UInt8 := UInt8.ofNat (48 + k)

lemma toNat_digitByte {k : ℕ} (hk : k < 10) : (digitByte k).toNat = 48 + k := by
  rw [digitByte, UInt8.toNat_ofNat']
  omega

lemma isAsciiDigit_digitByte {k : ℕ} (hk : k < 10) : isAsciiDigit (digitByte k) = true := by
  have h := toNat_digitByte hk
  simp only [isAsciiDigit, Bool.and_eq_true, decide_eq_true_eq, UInt8.le_iff_toNat_le]
  constructor
  · rw [h]
    exact Nat.le_add_right 48 k
  · rw [h]
    change 48 + k ≤ 57
    omega

lemma checkedU16_eq {n : ℕ} (hn : n < 2 ^ 16) : checkedU16 n = some n := if_pos hn

/-- Bytes before the first digit are passed over. -/
lemma trailingCodeFrom_skip {bytes : List UInt8} (rest : List UInt8) (code power : ℕ)
    (h : ∀ b ∈ bytes, isAsciiDigit b = false) :
    trailingCodeFrom (bytes ++ rest) code power false = trailingCodeFrom rest code power false := by
  induction bytes with
  | nil => rfl
  | cons b bytes ih =>
    rw [List.cons_append, trailingCodeFrom, h b List.mem_cons_self]
    exact ih fun x hx => h x (List.mem_cons_of_mem b hx)

/-- One digit. -/
lemma trailingCodeFrom_digit {k : ℕ} (hk : k < 10) (rest : List UInt8) (code power : ℕ)
    (started : Bool) :
    trailingCodeFrom (digitByte k :: rest) code power started =
      (checkedU16 (power * k)).bind fun term => (checkedU16 (code + term)).bind fun code =>
        (checkedU16 (power * 10)).bind fun power => trailingCodeFrom rest code power true := by
  have hsub : (digitByte k).toNat - 48 = k := by
    rw [toNat_digitByte hk, Nat.add_sub_cancel_left]
  rw [trailingCodeFrom, isAsciiDigit_digitByte hk, if_pos rfl, hsub]
  rfl

/-- Digits whose value and next place weight fit are added up. -/
lemma trailingCodeFrom_digits {ds : List ℕ} (hds : ∀ d ∈ ds, d < 10) (hne : ds ≠ [])
    (rest : List UInt8) {code power : ℕ} (started : Bool)
    (hcode : code + power * Nat.ofDigits 10 ds < 2 ^ 16)
    (hpower : power * 10 ^ ds.length < 2 ^ 16) :
    trailingCodeFrom (ds.map digitByte ++ rest) code power started =
      trailingCodeFrom rest (code + power * Nat.ofDigits 10 ds) (power * 10 ^ ds.length) true := by
  induction ds generalizing code power started with
  | nil => exact absurd rfl hne
  | cons d ds ih =>
    have hvalue : code + power * Nat.ofDigits 10 (d :: ds) =
        code + power * d + power * 10 * Nat.ofDigits 10 ds := by
      rw [Nat.ofDigits_cons]
      ring
    have hweight : power * 10 ^ (d :: ds).length = power * 10 * 10 ^ ds.length := by
      rw [List.length_cons, pow_succ']
      ring
    rw [hvalue] at hcode ⊢
    rw [hweight] at hpower ⊢
    have hnext : power * 10 < 2 ^ 16 :=
      lt_of_le_of_lt (Nat.le_mul_of_pos_right _ (by positivity)) hpower
    rw [List.map_cons, List.cons_append, trailingCodeFrom_digit (hds d List.mem_cons_self),
      checkedU16_eq (by omega), Option.bind_some, checkedU16_eq (by omega), Option.bind_some,
      checkedU16_eq hnext, Option.bind_some]
    by_cases hnil : ds = []
    · rw [hnil]
      simp only [List.map_nil, List.nil_append, Nat.ofDigits_nil, mul_zero, add_zero,
        List.length_nil, pow_zero, mul_one]
    · exact ih (fun x hx => hds x (List.mem_cons_of_mem d hx)) hnil true hcode hpower

/-- Digits whose next place weight does not fit end the walk without a code. -/
lemma trailingCodeFrom_overflow {ds : List ℕ} (hds : ∀ d ∈ ds, d < 10) (rest : List UInt8)
    {code power : ℕ} (started : Bool) (hpower : power < 2 ^ 16)
    (hover : 2 ^ 16 ≤ power * 10 ^ ds.length) :
    trailingCodeFrom (ds.map digitByte ++ rest) code power started = none := by
  induction ds generalizing code power started with
  | nil =>
    rw [List.length_nil, pow_zero, mul_one] at hover
    exact absurd hpower (Nat.not_lt.mpr hover)
  | cons d ds ih =>
    have hweight : power * 10 ^ (d :: ds).length = power * 10 * 10 ^ ds.length := by
      rw [List.length_cons, pow_succ']
      ring
    rw [hweight] at hover
    rw [List.map_cons, List.cons_append, trailingCodeFrom_digit (hds d List.mem_cons_self)]
    simp only [Option.bind_eq_none_iff]
    intro term _ code' _ power' hpower'
    unfold checkedU16 at hpower'
    split_ifs at hpower' with hfits
    obtain rfl := Option.some.inj hpower'
    exact ih (fun x hx => hds x (List.mem_cons_of_mem d hx)) true hfits hover

/-- After the digits the walk ends. -/
lemma trailingCodeFrom_stop {rest : List UInt8} (code power : ℕ)
    (h : ∀ b ∈ rest.head?, isAsciiDigit b = false) :
    trailingCodeFrom rest code power true = some (UInt16.ofNat code) := by
  cases rest with
  | nil => rfl
  | cons b rest => rw [trailingCodeFrom, h b rfl]; rfl

/-! ## The code of one text -/

/-- A number has at most four digits when it is below ten thousand. -/
lemma length_digits_le_four (n : ℕ) : (Nat.digits 10 n).length ≤ 4 ↔ n < 10000 := by
  rw [Nat.digits_length_le_iff (by decide)]
  rfl

/-- The code at the end of a text is found when it has at most four digits. -/
lemma trailingCode_eq {text : List UInt8} {code : UInt16} (hcode : inEpsgRange code = true)
    (h : EndsInCode text code) :
    trailingCode text = if code.toNat < 10000 then some code else none := by
  obtain ⟨before, after, rfl, hbefore, hafter, hlen⟩ := h
  have hpos : code.toNat ≠ 0 := by
    simp only [inEpsgRange, Bool.and_eq_true, decide_eq_true_eq, UInt16.le_iff_toNat_le] at hcode
    have h1024 : (1024 : UInt16).toNat = 1024 := rfl
    omega
  set ds := Nat.digits 10 code.toNat with hds
  have hdec : decimal code.toNat = (ds.map digitByte).reverse := rfl
  have hlt : ∀ d ∈ ds, d < 10 := fun d hd => Nat.digits_lt_base (by decide) hd
  have hne : ds ≠ [] := Nat.digits_ne_nil_iff_ne_zero.mpr hpos
  -- the last byte of the code is a digit, so only what follows the code is trimmed
  have htrim : trimEnd isAsciiWhitespace (before ++ decimal code.toNat ++ after) =
      before ++ decimal code.toNat ++ trimEnd isAsciiWhitespace after := by
    apply trimEnd_append
    intro b hb
    obtain ⟨d, ds', hcons⟩ := List.exists_cons_of_ne_nil hne
    rw [hdec, hcons, List.map_cons, List.reverse_cons, ← List.append_assoc,
      List.getLast?_concat] at hb
    obtain rfl := Option.some.inj hb
    have hd : d < 10 := hlt d (by rw [hcons]; exact List.mem_cons_self)
    clear hcons hb
    interval_cases d <;> decide
  have hafter' : ∀ b ∈ (trimEnd isAsciiWhitespace after).reverse, isAsciiDigit b = false := by
    intro b hb
    rw [trimEnd, List.reverse_reverse] at hb
    exact hafter b (List.mem_reverse.mp ((List.dropWhile_sublist _).mem hb))
  have hwindow : (before ++ decimal code.toNat ++ trimEnd isAsciiWhitespace after).reverse.take 10 =
      (trimEnd isAsciiWhitespace after).reverse ++ (ds.map digitByte ++ before.reverse.take
        (10 - (decimal code.toNat ++ trimEnd isAsciiWhitespace after).length)) := by
    rw [List.append_assoc, List.reverse_append, List.take_append, List.length_reverse,
      List.take_of_length_le (by rwa [List.length_reverse]), List.reverse_append, hdec,
      List.reverse_reverse, List.append_assoc]
  have hstop : ∀ b ∈ (before.reverse.take
      (10 - (decimal code.toNat ++ trimEnd isAsciiWhitespace after).length)).head?,
      isAsciiDigit b = false := by
    intro b hb
    apply hbefore
    rw [← List.head?_reverse]
    rw [List.head?_take] at hb
    split_ifs at hb
    · cases hb
    · exact hb
  have hvalue : Nat.ofDigits 10 ds = code.toNat := Nat.ofDigits_digits 10 code.toNat
  rw [trailingCode, htrim, hwindow, trailingCodeFrom_skip _ _ _ hafter']
  split_ifs with hsmall
  · have hfour : ds.length ≤ 4 := (length_digits_le_four _).mpr hsmall
    have hweight : 10 ^ ds.length ≤ 10 ^ 4 := Nat.pow_le_pow_right (by decide) hfour
    rw [trailingCodeFrom_digits hlt hne _ _ (by omega) (by omega), trailingCodeFrom_stop _ _ hstop,
      hvalue, zero_add, one_mul, UInt16.ofNat_toNat]
  · have hfive : 5 ≤ ds.length := Nat.lt_of_not_le fun h =>
      hsmall ((length_digits_le_four _).mp h)
    have hweight : 10 ^ 5 ≤ 10 ^ ds.length := Nat.pow_le_pow_right (by decide) hfive
    exact trailingCodeFrom_overflow hlt _ _ (by decide) (by omega)


/-! ## The codes of a WKT text -/

/-- A text without a vertical keyword is not split. -/
lemma splitVertical_none {wkt : List UInt8} (h : ∀ k ∈ verticalKeywords, ¬ k <:+: wkt) :
    splitVertical wkt = (wkt, none) := by
  simp only [verticalKeywords, List.forall_mem_cons] at h
  obtain ⟨h₁, h₂, h₃, -⟩ := h
  rw [splitVertical, splitOnce_eq_none h₁, splitOnce_eq_none h₂, splitOnce_eq_none h₃]

/-- A text with a vertical keyword is split around it. -/
lemma splitVertical_some {wkt before after : List UInt8} (h : VerticalSplit wkt before after) :
    splitVertical wkt = (before, some after) := by
  obtain ⟨earlier, keyword, later, hkeywords, hearlier, hsplit⟩ := h
  have hfound := splitOnce_eq_some hsplit
  rw [verticalKeywords] at hkeywords
  rcases earlier with _ | ⟨k₁, _ | ⟨k₂, _ | ⟨k₃, earlier⟩⟩⟩
  · obtain ⟨rfl, -⟩ := List.cons.inj hkeywords
    rw [splitVertical, hfound]
  · simp only [List.cons_append, List.nil_append, List.cons.injEq] at hkeywords
    obtain ⟨rfl, rfl, -⟩ := hkeywords
    rw [splitVertical, splitOnce_eq_none (hearlier _ List.mem_cons_self), hfound]
  · simp only [List.cons_append, List.nil_append, List.cons.injEq] at hkeywords
    obtain ⟨rfl, rfl, rfl, -⟩ := hkeywords
    simp only [List.forall_mem_cons] at hearlier
    rw [splitVertical, splitOnce_eq_none hearlier.1, splitOnce_eq_none hearlier.2.1, hfound]
  · have hlength := congrArg List.length hkeywords
    simp only [List.length_cons, List.length_append, List.length_nil] at hlength
    omega

/-- The horizontal code of the first part decides whether there is a result at all. -/
lemma getEpsgFromWktCrsBytes_of_split {bytes part : List UInt8} {vertical : Option (List UInt8)}
    (hascii : ∀ b ∈ bytes, b < 0x80) (hsplit : splitVertical bytes = (part, vertical))
    {code : UInt16} (hcode : inEpsgRange code = true) (hpart : EndsInCode part code) :
    getEpsgFromWktCrsBytes bytes =
      if code.toNat < 10000 then some (code, (vertical.bind trailingCode).filter inEpsgRange)
      else none := by
  rw [getEpsgFromWktCrsBytes, Utf8.lossy_of_ascii hascii, hsplit]
  simp only [trailingCode_eq hcode hpart]
  split_ifs with hsmall
  · simp only [hcode, if_true]
  · rfl

/-- **The codes of a WKT text are found exactly when they have at most four digits**: the one code
of a text without a vertical keyword, and both codes of a text with one. -/
theorem getEpsgFromWktCrsBytes_iff {bytes : List UInt8} (hascii : ∀ b ∈ bytes, b < 0x80)
    {code : UInt16} (hcode : inEpsgRange code = true) :
    ((∀ k ∈ verticalKeywords, ¬ k <:+: bytes) → EndsInCode bytes code →
      (getEpsgFromWktCrsBytes bytes = some (code, none) ↔ code.toNat < 10000)) ∧
    (∀ before after vertical, VerticalSplit bytes before after → EndsInCode before code →
      inEpsgRange vertical = true → EndsInCode after vertical →
      (getEpsgFromWktCrsBytes bytes = some (code, some vertical) ↔
        code.toNat < 10000 ∧ vertical.toNat < 10000)) := by
  constructor
  · intro hnone htext
    rw [getEpsgFromWktCrsBytes_of_split hascii (splitVertical_none hnone) hcode htext]
    simp
  · intro before after vertical hsplit hbefore hvertical hafter
    rw [getEpsgFromWktCrsBytes_of_split hascii (splitVertical_some hsplit) hcode hbefore,
      Option.bind_some, trailingCode_eq hvertical hafter]
    by_cases hsmall : code.toNat < 10000
    · by_cases hsmall' : vertical.toNat < 10000
      · simp [hsmall, hsmall', hvertical]
      · simp [hsmall, hsmall']
    · simp [hsmall]

/-- The end of a WKT text that names a code. -/
def authorityText (code : String) : List UInt8 := ascii ("ID[\"EPSG\"," ++ code ++ "]]")

/-- A code of four digits in both parts of a text is found. -/
theorem getEpsgFromWktCrsBytes_four_digits :
    getEpsgFromWktCrsBytes (authorityText "4326") = some (4326, none) ∧
      getEpsgFromWktCrsBytes (authorityText "4326" ++ ascii "VERTCRS[" ++ authorityText "5773") =
        some (4326, some 5773) := by
  have hends : ∀ code : UInt16, (code = 4326 ∨ code = 5773) → ∀ pre : List UInt8,
      EndsInCode (pre ++ ascii "ID[\"EPSG\"," ++ decimal code.toNat ++ ascii "]]") code := by
    intro code hcode pre
    refine ⟨pre ++ ascii "ID[\"EPSG\",", ascii "]]", rfl, ?_, by decide +kernel, ?_⟩
    · rw [List.getLast?_append_of_ne_nil _ (by decide +kernel)]
      decide +kernel
    · rcases hcode with rfl | rfl <;> decide +kernel
  constructor
  · exact ((getEpsgFromWktCrsBytes_iff (by decide +kernel) (by decide)).1 (by decide +kernel)
      (hends 4326 (Or.inl rfl) [])).mpr (by decide)
  · refine ((getEpsgFromWktCrsBytes_iff (by decide +kernel) (by decide)).2
      (authorityText "4326") (ascii "[" ++ authorityText "5773") 5773 ?_
      (hends 4326 (Or.inl rfl) []) (by decide)
      (hends 5773 (Or.inr rfl) (ascii "["))).mpr ⟨by decide, by decide⟩
    exact ⟨[], ascii "VERTCRS", _, rfl, by simp,
      firstSplit_of_splitOnce (by decide +kernel) (by decide +kernel)⟩

/-- **A code of five digits is not found.** -/
theorem getEpsgFromWktCrsBytes_five_digits :
    inEpsgRange 32632 = true ∧ (∀ b ∈ authorityText "32632", b < 0x80) ∧
      EndsInCode (authorityText "32632") 32632 ∧
      (∀ k ∈ verticalKeywords, ¬ k <:+: authorityText "32632") ∧
      getEpsgFromWktCrsBytes (authorityText "32632") = none := by
  refine ⟨by decide, by decide +kernel, ?_, by decide +kernel, by decide +kernel⟩
  exact ⟨ascii "ID[\"EPSG\",", ascii "]]", by decide +kernel, by decide +kernel, by decide +kernel,
    by decide +kernel⟩

end CopcConverter
