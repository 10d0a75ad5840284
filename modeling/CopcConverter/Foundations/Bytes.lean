import Mathlib

/-!
# Bytes

Little-endian numbers of a fixed width, and texts as byte lists.  Writing a number and reading it
back gives the number again when it fits the width, and every byte list of that width is the writing
of exactly one number.  Numbers that do not fit lose their high bytes, which is what a cast to a
narrower type does.

The rest is what file formats are described with: a stretch of a file, what becomes of it when bytes
in front are skipped or when a part is overwritten, texts in fields of fixed width that are padded
with NUL bytes, and the split of a text around the first occurrence of a pattern.  A slice of a file
that is given as its parts is computed by going past the parts before it; the lemmas are stated in
that form.
-/

namespace Bytes

/-! ## Little-endian numbers -/

/-- The `w` low bytes of a number, lowest first. -/
def toLE : ℕ → ℕ → List UInt8
  | 0, _ => []
  | w + 1, n => UInt8.ofNat n :: toLE w (n / 256)

/-- The number with the given bytes, lowest first. -/
def ofLE : List UInt8 → ℕ
  | [] => 0
  | b :: bs => b.toNat + 256 * ofLE bs

@[simp] lemma length_toLE (w n : ℕ) : (toLE w n).length = w := by
  induction w generalizing n with
  | zero => rfl
  | succ w ih => rw [toLE, List.length_cons, ih]

/-- Reading back keeps the part of the number that fits. -/
lemma ofLE_toLE (w n : ℕ) : ofLE (toLE w n) = n % 256 ^ w := by
  induction w generalizing n with
  | zero => simp [toLE, ofLE, Nat.mod_one]
  | succ w ih =>
    have hmod : n % (256 * 256 ^ w) = n % 256 + 256 * (n / 256 % 256 ^ w) := Nat.mod_mul
    have hpow : 256 ^ (w + 1) = 256 * 256 ^ w := pow_succ' 256 w
    rw [toLE, ofLE, ih, hpow, hmod]
    rfl

/-- Numbers that fit the width are determined by their bytes. -/
lemma toLE_inj {w m n : ℕ} (hm : m < 256 ^ w) (hn : n < 256 ^ w) (h : toLE w m = toLE w n) :
    m = n := by
  have h' := congrArg ofLE h
  rwa [ofLE_toLE, ofLE_toLE, Nat.mod_eq_of_lt hm, Nat.mod_eq_of_lt hn] at h'

/-- Read a number of `w` bytes from the front. -/
def readLE (w : ℕ) (bs : List UInt8) : Option (ℕ × List UInt8) :=
  if w ≤ bs.length then some (ofLE (bs.take w), bs.drop w) else none

/-- A number that fits is read back from the front. -/
lemma readLE_append {w n : ℕ} (h : n < 256 ^ w) (rest : List UInt8) :
    readLE w (toLE w n ++ rest) = some (n, rest) := by
  have htake : (toLE w n ++ rest).take w = toLE w n := List.take_left' (length_toLE w n)
  have hdrop : (toLE w n ++ rest).drop w = rest := List.drop_left' (length_toLE w n)
  rw [readLE, if_pos (by rw [List.length_append, length_toLE]; omega), htake, hdrop, ofLE_toLE,
    Nat.mod_eq_of_lt h]

/-- The bytes of an unsigned 64-bit number. -/
def u64 (n : UInt64) : List UInt8 := toLE 8 n.toNat

/-- The unsigned 64-bit number at an offset. -/
def readU64 (bs : List UInt8) (off : ℕ) : UInt64 := UInt64.ofNat (ofLE ((bs.drop off).take 8))

@[simp] lemma length_u64 (n : UInt64) : (u64 n).length = 8 := length_toLE 8 _

/-- A number written at the front is read back. -/
lemma readU64_u64_append (n : UInt64) (rest : List UInt8) : readU64 (u64 n ++ rest) 0 = n := by
  have htake : (u64 n ++ rest).take 8 = u64 n := List.take_left' (length_u64 n)
  have hlt : n.toNat < 256 ^ 8 := n.toNat_lt
  rw [readU64, List.drop_zero, htake, u64, ofLE_toLE, Nat.mod_eq_of_lt hlt, UInt64.ofNat_toNat]

/-- Numbers are read the same from texts that have the same eight bytes there. -/
lemma readU64_congr {bs cs : List UInt8} {off off' : ℕ}
    (h : ∀ j < 8, bs[off + j]? = cs[off' + j]?) : readU64 bs off = readU64 cs off' := by
  have hslice : (bs.drop off).take 8 = (cs.drop off').take 8 := by
    apply List.ext_getElem?
    intro j
    rw [List.getElem?_take, List.getElem?_take, List.getElem?_drop, List.getElem?_drop]
    split_ifs with hj
    · exact h j hj
    · rfl
  rw [readU64, readU64, hslice]

lemma u64_injective : Function.Injective u64 := fun m n h =>
  UInt64.toNat_inj.mp (toLE_inj m.toNat_lt n.toNat_lt h)

/-! ## Patching -/

/-- Replace the bytes from an offset on. -/
def overwrite (bytes : List UInt8) (off : ℕ) (new : List UInt8) : List UInt8 :=
  bytes.take off ++ new ++ bytes.drop (off + new.length)

lemma length_overwrite {bytes new : List UInt8} {off : ℕ} (h : off + new.length ≤ bytes.length) :
    (overwrite bytes off new).length = bytes.length := by
  simp only [overwrite, List.length_append, List.length_take, List.length_drop]
  omega

/-- The new bytes lie where they were written, the others stay. -/
lemma getElem?_overwrite {bytes new : List UInt8} {off : ℕ} (h : off + new.length ≤ bytes.length)
    (j : ℕ) : (overwrite bytes off new)[j]? =
      if off ≤ j ∧ j < off + new.length then new[j - off]? else bytes[j]? := by
  have htake : (bytes.take off).length = off := by
    rw [List.length_take]
    omega
  have hboth : (bytes.take off ++ new).length = off + new.length := by
    rw [List.length_append, htake]
  rw [overwrite]
  by_cases hlow : j < off
  · rw [if_neg (by omega), List.getElem?_append_left (by omega),
      List.getElem?_append_left (by omega), List.getElem?_take_of_lt hlow]
  · by_cases hmid : j < off + new.length
    · rw [if_pos (by omega), List.getElem?_append_left (by omega),
        List.getElem?_append_right (by omega), htake]
    · rw [if_neg (by omega), List.getElem?_append_right (by omega), hboth, List.getElem?_drop]
      congr 1
      omega

/-- The new bytes take the place of old ones of the same length. -/
lemma overwrite_middle (before old after new : List UInt8)
    (h : new.length = old.length) :
    overwrite (before ++ (old ++ after)) before.length new = before ++ (new ++ after) := by
  have hdrop : (before ++ (old ++ after)).drop (before.length + new.length) = after := by
    rw [h, ← List.append_assoc, ← List.length_append, List.drop_left]
  rw [overwrite, List.take_left, hdrop, List.append_assoc]

/-- A stretch of bytes. -/
def slice (bytes : List UInt8) (off width : ℕ) : List UInt8 := (bytes.drop off).take width

/-- A stretch after a first part. -/
lemma slice_skip {before : List UInt8} (after : List UInt8) {off : ℕ} (width : ℕ)
    (h : before.length ≤ off) :
    slice (before ++ after) off width = slice after (off - before.length) width := by
  rw [slice, slice, List.drop_append, List.drop_of_length_le h, List.nil_append]

/-- A stretch that begins a text. -/
lemma slice_here {here : List UInt8} (after : List UInt8) {width : ℕ} (h : here.length = width) :
    slice (here ++ after) 0 width = here := by
  rw [slice, List.drop_zero, ← h, List.take_left]

/-- A stretch of bytes, one by one. -/
lemma getElem?_slice (bytes : List UInt8) (off width j : ℕ) :
    ((bytes.drop off).take width)[j]? = if j < width then bytes[off + j]? else none := by
  rw [List.getElem?_take, List.getElem?_drop]

/-! ## Texts -/

/-- The bytes of an ASCII text. -/
def ascii (s : String) : List UInt8 := s.toList.map fun c => UInt8.ofNat c.toNat

/-- Drop the trailing bytes that satisfy a predicate. -/
def trimEnd (q : UInt8 → Bool) (bs : List UInt8) : List UInt8 := (bs.reverse.dropWhile q).reverse

/-- A text in a field of fixed width, cut to the width and padded with NUL bytes. -/
def padded (width : ℕ) (s : List UInt8) : List UInt8 :=
  s.take width ++ List.replicate (width - s.length) 0

@[simp] lemma length_padded (width : ℕ) (s : List UInt8) : (padded width s).length = width := by
  rw [padded, List.length_append, List.length_take, List.length_replicate]
  omega

/-- The decimal digits of a positive number. -/
def decimal (n : ℕ) : List UInt8 := ((Nat.digits 10 n).map fun k => UInt8.ofNat (48 + k)).reverse

/-- The part before and the part after the first occurrence of a pattern. -/
def splitOnce (pat : List UInt8) : List UInt8 → Option (List UInt8 × List UInt8)
  | [] => if pat.isEmpty then some ([], []) else none
  | b :: bs =>
    if pat.isPrefixOf (b :: bs) then some ([], (b :: bs).drop pat.length)
    else (splitOnce pat bs).map fun r => (b :: r.1, r.2)

/-- The text is split around the first occurrence of a pattern. -/
def FirstSplit (pat text before after : List UInt8) : Prop :=
  text = before ++ pat ++ after ∧
    ∀ before' after', text = before' ++ pat ++ after' → before.length ≤ before'.length

/-- A text without the pattern is not split. -/
lemma splitOnce_eq_none {pat text : List UInt8} (h : ¬ pat <:+: text) :
    splitOnce pat text = none := by
  induction text with
  | nil =>
    have hne : pat ≠ [] := by
      rintro rfl
      exact h (List.nil_infix)
    rw [splitOnce, if_neg (by simpa using hne)]
  | cons b text ih =>
    have hpre : ¬ pat <+: b :: text := fun hp => h hp.isInfix
    have htail : ¬ pat <:+: text := fun hp => h (hp.trans (List.suffix_cons b text).isInfix)
    rw [splitOnce, if_neg (by rwa [List.isPrefixOf_iff_prefix]), ih htail, Option.map_none]

/-- A text with the pattern is split around its first occurrence. -/
lemma splitOnce_eq_some {pat text before after : List UInt8}
    (h : FirstSplit pat text before after) : splitOnce pat text = some (before, after) := by
  induction text generalizing before with
  | nil =>
    obtain ⟨htext, -⟩ := h
    have hall := congrArg List.length htext
    simp only [List.length_nil, List.length_append] at hall
    have hbefore : before = [] := List.length_eq_zero_iff.mp (by omega)
    have hpat : pat = [] := List.length_eq_zero_iff.mp (by omega)
    have hafter : after = [] := List.length_eq_zero_iff.mp (by omega)
    rw [hbefore, hpat, hafter]
    rfl
  | cons b text ih =>
    obtain ⟨htext, hfirst⟩ := h
    rw [splitOnce]
    obtain _ | ⟨c, before⟩ := before
    · rw [List.nil_append] at htext
      have hpre : pat.isPrefixOf (b :: text) = true := by
        rw [List.isPrefixOf_iff_prefix, htext]
        exact List.prefix_append pat after
      rw [if_pos hpre, htext, List.drop_left]
    · rw [List.cons_append, List.cons_append, List.cons.injEq] at htext
      obtain ⟨rfl, htext⟩ := htext
      have hpre : ¬ pat.isPrefixOf (b :: text) = true := by
        rw [List.isPrefixOf_iff_prefix]
        rintro ⟨after', hafter'⟩
        have hle := hfirst [] after' (by rw [List.nil_append, hafter'])
        simp at hle
      have hrest : FirstSplit pat text before after := by
        refine ⟨htext, fun before' after' h' => ?_⟩
        have hle := hfirst (b :: before') after' (by rw [h']; rfl)
        simpa using hle
      rw [if_neg hpre, ih hrest, Option.map_some]

/-- A split is around the first occurrence. -/
lemma firstSplit_of_splitOnce {pat text before after : List UInt8} (hpat : pat ≠ [])
    (h : splitOnce pat text = some (before, after)) : FirstSplit pat text before after := by
  induction text generalizing before with
  | nil =>
    rw [splitOnce, if_neg (by simpa using hpat)] at h
    cases h
  | cons b text ih =>
    rw [splitOnce] at h
    split_ifs at h with hpre
    · obtain ⟨rfl, rfl⟩ := Prod.mk.inj (Option.some.inj h)
      rw [List.isPrefixOf_iff_prefix] at hpre
      refine ⟨?_, fun _ _ _ => Nat.zero_le _⟩
      rw [List.nil_append, List.prefix_iff_eq_append.mp hpre]
    · obtain ⟨⟨before', after'⟩, hrest, hpair⟩ := Option.map_eq_some_iff.mp h
      obtain ⟨rfl, rfl⟩ := Prod.mk.inj hpair
      obtain ⟨htext, hfirst⟩ := ih hrest
      refine ⟨by rw [htext]; rfl, fun first last hsplit => ?_⟩
      obtain _ | ⟨c, first⟩ := first
      · refine absurd ?_ hpre
        rw [hsplit, List.nil_append, List.isPrefixOf_iff_prefix]
        exact List.prefix_append pat last
      · rw [List.cons_append, List.cons_append, List.cons.injEq] at hsplit
        exact Nat.succ_le_succ (hfirst first last hsplit.2)

/-- Nothing is dropped when the last byte stays. -/
lemma trimEnd_append (q : UInt8 → Bool) {text : List UInt8} (tail : List UInt8)
    (h : ∀ b ∈ text.getLast?, q b = false) :
    trimEnd q (text ++ tail) = text ++ trimEnd q tail := by
  rw [trimEnd, trimEnd, List.reverse_append, List.dropWhile_append]
  split_ifs with hall
  · have hnil : tail.reverse.dropWhile q = [] := List.isEmpty_iff.mp hall
    have hkeep : text.reverse.dropWhile q = text.reverse := by
      cases hrev : text.reverse with
      | nil => rfl
      | cons b rest =>
        have hlast : text.getLast? = some b := by
          rw [← List.head?_reverse, hrev, List.head?_cons]
        rw [List.dropWhile_cons, if_neg (by simp [h b hlast])]
    rw [hnil, hkeep, List.reverse_nil, List.append_nil, List.reverse_reverse]
  · rw [List.reverse_append, List.reverse_reverse]

/-- A text that fits its field and does not end in NUL is read back. -/
lemma trimEnd_padded {width : ℕ} {s : List UInt8} (hlen : s.length ≤ width)
    (h : ∀ b ∈ s.getLast?, b ≠ 0) : trimEnd (fun b => b = 0) (padded width s) = s := by
  have hzero : ∀ n, trimEnd (fun b => b = 0) (List.replicate n 0) = [] := by
    intro n
    rw [trimEnd, List.reverse_replicate, List.reverse_eq_nil_iff, List.dropWhile_eq_nil_iff]
    intro b hb
    simp [List.eq_of_mem_replicate hb]
  rw [padded, List.take_of_length_le hlen, trimEnd_append _ _ (fun b hb => by simp [h b hb]), hzero,
    List.append_nil]

end Bytes
