import ProtoJson.Document.Number
import ProtoJson.Document.Scan
import ProtoJson.Document.Text
import ProtoJson.Proofs.Grammar.NumberLiteral
import ProtoJson.Proofs.Grammar.StringLiteral
import ProtoJson.Proofs.Reader.Token

/-!
# Tokens of a document as they are spelled

The scanner of documents takes a string and a number of RFC 8259 as a whole from in front of
whatever follows. Of a string it keeps the bytes between the quotes, which need not be UTF-8; of a
number it keeps the digits.
-/

namespace ProtoJson

open Grammar

/-! ## Strings -/

namespace Grammar

/-- What may stand between the quotes of a string: bytes that are no control characters, escapes of
two characters, and code units. -/
inductive IsStrictBody : List UInt8 → Prop
  | nil : IsStrictBody []
  | plain {b : UInt8} {r : List UInt8} (hcontrol : 0x20 ≤ b) (hquote : b ≠ ascii '"')
      (hslash : b ≠ ascii '\\') (h : IsStrictBody r) : IsStrictBody (b :: r)
  | short (e : ShortEscape) {r : List UInt8} (h : IsStrictBody r) :
      IsStrictBody (ascii '\\' :: ascii e.mark :: r)
  | unit (u : CodeUnit) {r : List UInt8} (h : IsStrictBody r) :
      IsStrictBody (ascii '\\' :: ascii 'u' :: (u.source.map ascii ++ r))

/-- A type of strings that are spelled as JSON demands, apart from the encoding of characters. -/
class StrictQuotation (σ : Type) extends Quotation σ where
  strict : ∀ s, IsStrictBody (raw s)

theorem IsStrictBody.append_plain {xs ys : List UInt8}
    (hxs : ∀ b ∈ xs, 0x20 ≤ b ∧ b ≠ ascii '"' ∧ b ≠ ascii '\\') (hys : IsStrictBody ys) :
    IsStrictBody (xs ++ ys) := by
  induction xs with
  | nil => exact hys
  | cons b xs ih =>
    obtain ⟨hcontrol, hquote, hslash⟩ := hxs b List.mem_cons_self
    exact .plain hcontrol hquote hslash (ih fun b hb => hxs b (List.mem_cons_of_mem _ hb))

theorem HexDigit.toNat_char (d : HexDigit) : d.char.toNat < 0x80 := by
  have hlt : ∀ n < 16, (hexDigit n).toNat < 0x80 ∧ (hexDigit n).toUpper.toNat < 0x80 := by decide
  obtain ⟨hn, hd | hd⟩ := hexValue?_eq_some_iff.1 d.hex <;> rw [hd]
  · exact (hlt _ hn).1
  · exact (hlt _ hn).2

theorem CodeUnit.encode_source (u : CodeUnit) : Utf8.encode u.source = u.source.map ascii := by
  simp [source, Utf8.encodeChar_ascii, HexDigit.toNat_char]

theorem StringLiteral.isStrictBody_sourceOf (parts : List StringPart) :
    IsStrictBody (Utf8.encode (sourceOf parts)) := by
  induction parts with
  | nil => exact .nil
  | cons p ps ih =>
    rw [sourceOf_cons, Utf8.encode_append]
    cases p with
    | plain c h =>
      refine .append_plain (fun b hb => ?_) ih
      rw [StringPart.source, Utf8.encode_cons, Utf8.encode_nil, List.append_nil] at hb
      refine ⟨?_, encodeChar_ne ⟨h.quote, h.backslash⟩ b hb⟩
      rw [UInt8.le_iff_toNat_le]
      by_cases hc : c.toNat < 0x80
      · rw [Utf8.encodeChar_ascii hc, List.mem_singleton] at hb
        rw [hb, toNat_ascii (by omega)]
        exact h.control
      · exact Nat.le_trans (by decide) (Utf8.le_of_mem_encodeChar (Nat.le_of_not_lt hc) hb)
    | short e =>
      simp only [StringPart.source, Utf8.encode_cons, Utf8.encode_nil, List.append_nil]
      rw [Utf8.encodeChar_ascii e.mark_ascii]
      exact .short e ih
    | unit u =>
      simp only [StringPart.source, Utf8.encode_cons, u.encode_source]
      exact .unit u ih

instance : StrictQuotation StringLiteral where
  strict s := StringLiteral.isStrictBody_sourceOf s.parts

end Grammar

/-- A text without backslashes is decoded as it stands. -/
theorem decodeString?_ofString {s : String} (h : '\\' ∉ s.toList) :
    decodeString? (Utf8.ofString s) = some s := by
  rw [decodeString?, Utf8.ofString, Utf8.decode?_encode, Option.bind_some,
    StringLiteral.unescape?_of_not_mem none _ h, Option.map_some, String.ofList_toList]

namespace DocumentToken

theorem isShortEscape_mark (e : ShortEscape) : isShortEscape (ascii e.mark) = true := by
  cases e <;> decide

theorem isHexByte_char (d : HexDigit) : isHexByte (ascii d.char) = true := by
  rw [isHexByte, toNat_ascii (Nat.lt_trans d.toNat_char (by decide)), Char.ofNat_toNat, d.hex]
  rfl

/-- A string is taken up to the quote after it. -/
theorem stringBody?_append {raw : List UInt8} (h : IsStrictBody raw) (r : List UInt8) :
    stringBody? (raw ++ ascii '"' :: r) = some (raw, r) := by
  have hslash : ascii '\\' ≠ ascii '"' ∧ ¬ascii '\\' < 0x20 := by decide
  have hunit : isShortEscape (ascii 'u') = false := by decide
  induction h with
  | nil => rw [List.nil_append, stringBody?.eq_def]; simp
  | @plain b x hcontrol hquote hslash _ ih =>
    rw [List.cons_append, stringBody?.eq_def]
    simp only [hquote, hslash, UInt8.not_lt.2 hcontrol, if_false, ih]
    rfl
  | short e _ ih =>
    rw [List.cons_append, List.cons_append, stringBody?.eq_def]
    simp [hslash, isShortEscape_mark e, ih]
  | unit u _ ih =>
    rw [List.cons_append, List.cons_append, stringBody?.eq_def]
    simp [hslash, hunit, CodeUnit.source, isHexByte_char, ih]

/-! ## Digits -/

theorem digits_append {ds : List Char} (hds : ds.all isDigit = true) {r : List UInt8}
    (hr : ∀ b x, r = b :: x → isDigitByte b = false) :
    digits (ds.map ascii ++ r) = (ds, r) := by
  have hbytes : ∀ b ∈ ds.map ascii, isDigitByte b = true := by
    intro b hb
    obtain ⟨c, hc, rfl⟩ := List.mem_map.1 hb
    exact NumberLiteral.isDigitByte_ascii (List.all_eq_true.1 hds c hc)
  have hchars : (ds.map ascii).map (fun b => Char.ofNat b.toNat) = ds := by
    rw [List.map_map]
    refine (List.map_congr_left fun c hc => ?_).trans (List.map_id ds)
    have hlt := (isDigit_iff c).1 (List.all_eq_true.1 hds c hc)
    rw [Function.comp_apply, toNat_ascii (by omega), Char.ofNat_toNat, id]
  rw [digits, List.takeWhile_append_of_pos hbytes, List.dropWhile_append_of_pos hbytes]
  cases r with
  | nil => simp [hchars]
  | cons b x =>
    have hb := hr b x rfl
    rw [List.takeWhile_cons_of_neg (by simp [hb]), List.dropWhile_cons_of_neg (by simp [hb]),
      List.append_nil, hchars]

theorem someDigits?_append (ds : Digits) {r : List UInt8}
    (hr : ∀ b x, r = b :: x → isDigitByte b = false) :
    someDigits? (ds.chars.map ascii ++ r) = some (ds.chars, r) := by
  rw [someDigits?, digits_append ds.digits hr]
  split
  · next h => exact absurd (congrArg Prod.fst h) ds.nonempty
  · rfl

end DocumentToken

/-! ## Numbers -/

/-- The digits of a number as a document keeps them. -/
def Grammar.NumberLiteral.digits (n : NumberLiteral) : NumberText where
  negative := n.negative
  whole := n.whole.chars
  fraction := n.fractionDigits
  exponent := n.exponent.map fun e => (decide (e.sign = .minus), e.size.chars)

namespace Grammar.NumberLiteral

theorem digits_ofInt (v : Int) :
    (ofInt v).digits = ⟨decide (v < 0), decimal v.natAbs, [], none⟩ := by
  simp [digits, ofInt, Digits.ofNat, fractionDigits]

theorem digits_zero : (ofInt 0).digits = ⟨false, ['0'], [], none⟩ := by
  rw [digits_ofInt, Int.natAbs_zero, decimal_zero]
  rfl

/-- An integer that is written is an integer of a document. -/
theorem integer?_digits_ofInt (v : Int) : (ofInt v).digits.integer? = some v := by
  rw [digits_ofInt, NumberText.integer?, if_pos ⟨rfl, rfl⟩, ofLongDigits_eq, ofDigits_decimal]
  simp only [decide_eq_true_eq]
  split_ifs with hneg hzero
  · omega
  · congr 1
    omega
  · congr 1
    omega

end Grammar.NumberLiteral

namespace DocumentToken

variable {r : List UInt8}

/-- No digit follows a number. -/
theorem isDigitByte_of_endsRun (hr : EndsRun r) (b : UInt8) (x : List UInt8) (h : r = b :: x) :
    isDigitByte b = false := by
  have hb := hr b x h
  simp only [TokenKind.isNumberByte, Bool.or_eq_false_iff] at hb
  exact hb.1.1.1.1.1

theorem exponentSign_append (e : ExponentText) :
    exponentSign (e.sign.chars.map ascii ++ (e.size.chars.map ascii ++ r))
      = (decide (e.sign = .minus), e.size.chars.map ascii ++ r) := by
  cases e.sign with
  | plus => rfl
  | minus => rfl
  | none =>
    obtain ⟨c, cs, hc, hd⟩ := e.size.exists_cons
    have hne : ∀ b : UInt8, isDigitByte b = true → b ≠ ascii '-' ∧ b ≠ ascii '+' :=
      forall_byte (by decide +kernel)
    obtain ⟨hminus, hplus⟩ := hne _ (NumberLiteral.isDigitByte_ascii hd)
    rw [hc, ExponentSign.chars, List.map_nil, List.nil_append, List.map_cons, List.cons_append,
      exponentSign, if_neg hminus, if_neg hplus]
    rfl

theorem exponentPart?_append (n : NumberLiteral) (hr : EndsRun r) :
    exponentPart? (n.exponentChars.map ascii ++ r) = some (n.digits.exponent, r) := by
  rw [NumberLiteral.exponentChars, NumberLiteral.digits]
  cases n.exponent with
  | none =>
    cases r with
    | nil => rfl
    | cons b x =>
      have hb : ¬(b = ascii 'e' ∨ b = ascii 'E') := by
        have hb := hr b x rfl
        rintro (rfl | rfl) <;> revert hb <;> decide
      rw [Option.elim_none, List.map_nil, List.nil_append, exponentPart?, if_neg hb]
      rfl
  | some e =>
    have hmark : ascii (if e.upper then 'E' else 'e') = ascii 'e' ∨
        ascii (if e.upper then 'E' else 'e') = ascii 'E' := by
      cases e.upper <;> decide
    rw [Option.elim_some, ExponentText.chars, List.map_cons, List.map_append, List.cons_append,
      List.append_assoc, exponentPart?, if_pos hmark, exponentSign_append]
    dsimp only
    rw [someDigits?_append e.size (isDigitByte_of_endsRun hr)]
    rfl

theorem fractionPart?_append (n : NumberLiteral)
    (hr : ∀ b x, r = b :: x → isDigitByte b = false ∧ b ≠ ascii '.') :
    fractionPart? (n.fractionChars.map ascii ++ r) = some (n.fractionDigits, r) := by
  rw [NumberLiteral.fractionChars, NumberLiteral.fractionDigits]
  cases n.fraction with
  | none =>
    cases r with
    | nil => rfl
    | cons b x =>
      rw [Option.elim_none, List.map_nil, List.nil_append, fractionPart?, if_neg (hr b x rfl).2]
      rfl
  | some ds =>
    rw [Option.elim_some, List.map_cons, List.cons_append, fractionPart?, if_pos rfl]
    exact someDigits?_append ds fun b x h => (hr b x h).1

theorem wholePart?_append (n : NumberLiteral) (hr : ∀ b x, r = b :: x → isDigitByte b = false) :
    wholePart? (n.whole.chars.map ascii ++ r) = some (n.whole.chars, r) := by
  rw [wholePart?, someDigits?_append n.whole hr]
  split
  · next h =>
    have hchars := congrArg Prod.fst (Option.some.inj h)
    dsimp only at hchars
    have hzero := n.canonical (by rw [hchars]; rfl)
    rw [hchars] at hzero
    cases hzero
  · rfl

/-- What follows the fraction of a number is neither a digit nor a point. -/
theorem ne_of_exponentChars (n : NumberLiteral) (hr : EndsRun r) (b : UInt8) (x : List UInt8)
    (h : n.exponentChars.map ascii ++ r = b :: x) : isDigitByte b = false ∧ b ≠ ascii '.' := by
  rw [NumberLiteral.exponentChars] at h
  cases he : n.exponent with
  | none =>
    rw [he, Option.elim_none, List.map_nil, List.nil_append] at h
    refine ⟨isDigitByte_of_endsRun hr b x h, ?_⟩
    have hb := hr b x h
    rintro rfl
    revert hb
    decide
  | some e =>
    rw [he, Option.elim_some, ExponentText.chars, List.map_cons, List.cons_append,
      List.cons.injEq] at h
    rw [← h.1]
    cases e.upper <;> decide

/-- What follows the whole part of a number is no digit. -/
theorem ne_of_fractionChars (n : NumberLiteral) (hr : EndsRun r) (b : UInt8) (x : List UInt8)
    (h : n.fractionChars.map ascii ++ (n.exponentChars.map ascii ++ r) = b :: x) :
    isDigitByte b = false := by
  rw [NumberLiteral.fractionChars] at h
  cases hf : n.fraction with
  | none =>
    rw [hf, Option.elim_none, List.map_nil, List.nil_append] at h
    exact (ne_of_exponentChars n hr b x h).1
  | some ds =>
    rw [hf, Option.elim_some, List.map_cons, List.cons_append, List.cons.injEq] at h
    rw [← h.1]
    decide

/-- A number without its sign is taken as a whole. -/
theorem unsigned?_append (n : NumberLiteral) (hr : EndsRun r) :
    unsigned? n.negative (n.unsigned.map ascii ++ r) = some (n.digits, r) := by
  rw [NumberLiteral.unsigned, List.map_append, List.map_append, List.append_assoc,
    List.append_assoc, unsigned?, wholePart?_append n (ne_of_fractionChars n hr)]
  dsimp only [Option.bind_eq_bind, Option.bind_some]
  rw [fractionPart?_append n (ne_of_exponentChars n hr)]
  dsimp only [Option.bind_some]
  rw [exponentPart?_append n hr]
  rfl

/-! ## All tokens -/

/-- Blanks stand in front of a token. -/
theorem next?_append (w : Blanks) {b : UInt8} (hb : isBlank b = false) (r : List UInt8) :
    next? (w.bytes ++ b :: r) = ofByte? b r := by
  rw [next?, List.dropWhile_append_of_pos w.blank, List.dropWhile_cons_of_neg (by simp [hb])]

theorem next?_symbol (w : Blanks) {b : UInt8} {t : DocumentToken} (hb : isBlank b = false)
    (ht : punctuation? b = some t) (r : List UInt8) : next? (w.bytes ++ b :: r) = some (t, r) := by
  rw [next?_append w hb, ofByte?, ht]

theorem next?_string {σ : Type} [StrictQuotation σ] (w : Blanks) (s : σ) (r : List UInt8) :
    next? (w.bytes ++ (Quotation.bytes s ++ r)) = some (string (Quotation.raw s), r) := by
  have hnone : punctuation? (ascii '"') = none := by decide
  rw [Quotation.bytes, List.cons_append, List.append_assoc, List.singleton_append,
    next?_append w (by decide), ofByte?, hnone]
  dsimp only
  rw [if_pos rfl, stringBody?_append (StrictQuotation.strict s)]
  rfl

theorem next?_number (w : Blanks) (n : NumberLiteral) (hr : EndsRun r) :
    next? (w.bytes ++ (Numeral.bytes n ++ r)) = some (scalar (.number n.digits), r) := by
  -- A minus or a digit begins no other token.
  have hstart : ∀ b : UInt8, (b = ascii '-' ∨ isDigitByte b = true) → isBlank b = false ∧
      (punctuation? b).isNone = true ∧ b ≠ ascii '"' ∧ b ≠ ascii 'n' ∧ b ≠ ascii 't' ∧
        b ≠ ascii 'f' := forall_byte (by decide +kernel)
  have hminus : ∀ b : UInt8, isDigitByte b = true → b ≠ ascii '-' := forall_byte (by decide +kernel)
  have hbytes : (Numeral.bytes n : List UInt8) = n.chars.map ascii :=
    NumberLiteral.encode_eq_map n.isNumberChar_chars
  have htake := unsigned?_append n hr
  obtain ⟨c, cs, hc, hd⟩ := n.exists_unsigned_eq_cons
  rw [hbytes, NumberLiteral.chars]
  cases hn : n.negative with
  | true =>
    obtain ⟨hblank, hnone, hquote, h₁, h₂, h₃⟩ := hstart (ascii '-') (.inl rfl)
    rw [hn] at htake
    rw [if_pos rfl, List.map_append, List.append_assoc, List.map_singleton, List.singleton_append,
      next?_append w hblank, ofByte?, Option.isNone_iff_eq_none.1 hnone]
    dsimp only
    rw [if_neg hquote, scalar?, if_neg h₁, if_neg h₂, if_neg h₃, if_pos rfl, htake]
    rfl
  | false =>
    have hb := NumberLiteral.isDigitByte_ascii hd
    obtain ⟨hblank, hnone, hquote, h₁, h₂, h₃⟩ := hstart (ascii c) (.inr hb)
    rw [hn, hc, List.map_cons, List.cons_append] at htake
    rw [if_neg Bool.false_ne_true, List.nil_append, hc, List.map_cons, List.cons_append,
      next?_append w hblank, ofByte?, Option.isNone_iff_eq_none.1 hnone]
    dsimp only
    rw [if_neg hquote, scalar?, if_neg h₁, if_neg h₂, if_neg h₃, if_neg (hminus _ hb), htake]
    rfl

end DocumentToken

end ProtoJson
