import ProtoJson.Proofs.Grammar.Token
import ProtoJson.Proofs.Number.Decimal
import ProtoJson.Proofs.Number.Digits

/-!
# Numbers of JSON

A number of RFC 8259 has an optional minus, digits without a leading zero, an optional fraction and
an optional exponent. Reading it as an integer or in a binary format follows from these parts.
-/

namespace ProtoJson

/-- A text that begins with a digit has no sign. -/
theorem IntegerKind.parse?_of_isDigit (kind : IntegerKind) {c : Char} {r : List Char}
    (hd : isDigit c = true) :
    kind.parse? (c :: r) = (digits? (c :: r)).bind fun n => kind.fit? n := by
  have hm : c ≠ '-' := by rintro rfl; revert hd; decide
  have hp : c ≠ '+' := by rintro rfl; revert hd; decide
  unfold IntegerKind.parse?
  split
  · next h => exact absurd (List.cons.inj h).1 hp
  · next h => exact absurd (List.cons.inj h).1 hm
  · rfl

namespace Grammar

/-! ## Parts -/

/-- One or more digits. -/
structure Digits where
  chars : List Char
  nonempty : chars ≠ []
  digits : chars.all isDigit = true

namespace Digits

/-- The digits of a number. -/
def ofNat (n : Nat) : Digits := ⟨decimal n, decimal_ne_nil n, all_isDigit_decimal n⟩

/-- The digits of zero are one zero. -/
theorem chars_zero : (ofNat 0).chars = ['0'] := by
  have hchars : ∀ n, (ofNat n).chars = decimal n := fun _ => rfl
  rw [hchars, decimal_zero]

/-- Digits with zeros after them. -/
def shift (ds : Digits) (zeros : Nat) : Digits :=
  ⟨ds.chars ++ List.replicate zeros '0', by simp [ds.nonempty], by simp [ds.digits, isDigit]⟩

/-- Digits with zeros in front of them. -/
def pad (ds : Digits) (zeros : Nat) : Digits :=
  ⟨List.replicate zeros '0' ++ ds.chars, by simp [ds.nonempty], by simp [ds.digits, isDigit]⟩

/-- The first `n` digits. -/
def front (ds : Digits) (n : Nat) (h : n ≠ 0) : Digits where
  chars := ds.chars.take n
  nonempty := by simp [h, ds.nonempty]
  digits := List.all_eq_true.2 fun c hc => List.all_eq_true.1 ds.digits c (List.mem_of_mem_take hc)

/-- The digits after the first `n`. -/
def back (ds : Digits) (n : Nat) (h : n < ds.chars.length) : Digits where
  chars := ds.chars.drop n
  nonempty := by simpa using h
  digits := List.all_eq_true.2 fun c hc => List.all_eq_true.1 ds.digits c (List.mem_of_mem_drop hc)

/-- A run of digits begins with a digit. -/
theorem exists_cons (ds : Digits) : ∃ c r, ds.chars = c :: r ∧ isDigit c = true := by
  obtain ⟨c, r, h⟩ := List.exists_cons_of_ne_nil ds.nonempty
  have hd := ds.digits
  rw [h, List.all_cons, Bool.and_eq_true] at hd
  exact ⟨c, r, h, hd.1⟩

end Digits

/-- The sign of an exponent. -/
inductive ExponentSign where
  | none
  | plus
  | minus
  deriving DecidableEq, Repr

/-- A sign as it is spelled. -/
def ExponentSign.chars : ExponentSign → List Char
  | none => []
  | plus => ['+']
  | minus => ['-']

/-- An exponent part. -/
structure ExponentText where
  upper : Bool
  sign : ExponentSign
  size : Digits

namespace ExponentText

/-- An exponent part as it is spelled. -/
def chars (e : ExponentText) : List Char :=
  (if e.upper then 'E' else 'e') :: (e.sign.chars ++ e.size.chars)

/-- The power of ten that an exponent part is read as. Digits after the bound is reached do not
count. -/
def power (e : ExponentText) : Int :=
  if e.sign = .minus then -(exponentSize e.size.chars : Int) else exponentSize e.size.chars

/-- The power of ten that an exponent part writes. -/
def exactPower (e : ExponentText) : Int :=
  if e.sign = .minus then -(ofDigits e.size.chars : Int) else ofDigits e.size.chars

theorem splitSign_chars (e : ExponentText) :
    splitSign (e.sign.chars ++ e.size.chars) = (decide (e.sign = .minus), e.size.chars) := by
  obtain ⟨c, r, hc, hd⟩ := e.size.exists_cons
  rw [hc]
  cases e.sign with
  | none =>
    have hm : c ≠ '-' := by rintro rfl; revert hd; decide
    have hp : c ≠ '+' := by rintro rfl; revert hd; decide
    unfold splitSign ExponentSign.chars
    split
    · next h => exact absurd (List.cons.inj h).1 hm
    · next h => exact absurd (List.cons.inj h).1 hp
    · rfl
  | plus => rfl
  | minus => rfl

theorem exponent?_chars (e : ExponentText) : exponent? e.chars = some e.power := by
  have hmark : (if e.upper then 'E' else 'e') = 'e' ∨ (if e.upper then 'E' else 'e') = 'E' := by
    cases e.upper <;> decide
  rw [chars, exponent?, if_pos hmark, splitSign_chars]
  dsimp only
  rw [if_pos ⟨e.size.nonempty, e.size.digits⟩, power]
  simp only [decide_eq_true_eq]

end ExponentText

/-! ## Numbers -/

/-- A number as RFC 8259 spells it. -/
structure NumberLiteral where
  negative : Bool
  whole : Digits
  canonical : whole.chars.head? = some '0' → whole.chars = ['0']
  fraction : Option Digits
  exponent : Option ExponentText

namespace NumberLiteral

/-- The digits after the point. -/
def fractionDigits (n : NumberLiteral) : List Char := n.fraction.elim [] Digits.chars

/-- The point and the digits after it. -/
def fractionChars (n : NumberLiteral) : List Char := n.fraction.elim [] ('.' :: ·.chars)

/-- The exponent part, if there is one. -/
def exponentChars (n : NumberLiteral) : List Char := n.exponent.elim [] ExponentText.chars

/-- A number without its sign. -/
def unsigned (n : NumberLiteral) : List Char :=
  n.whole.chars ++ (n.fractionChars ++ n.exponentChars)

/-- A number as it is spelled. -/
def chars (n : NumberLiteral) : List Char := (if n.negative then ['-'] else []) ++ n.unsigned

/-- The size of a number. -/
def size (n : NumberLiteral) : Decimal :=
  ⟨ofDigits (n.whole.chars ++ n.fractionDigits),
    n.exponent.elim 0 ExponentText.power - n.fractionDigits.length⟩

/-- The size of a number by all digits of its exponent. -/
def exactSize (n : NumberLiteral) : Decimal :=
  { n.size with exponent := n.exponent.elim 0 ExponentText.exactPower - n.fractionDigits.length }

/-- The number in a binary format. -/
def binary (fmt : BinaryFormat) (n : NumberLiteral) : Binary fmt :=
  .ofMagnitude n.negative (n.size.round fmt)

/-- Whether a number has neither a fraction nor an exponent. -/
def isWhole (n : NumberLiteral) : Bool := n.fraction.isNone && n.exponent.isNone

/-- The number as an integer of a kind. It must be written without a fraction, without an exponent
and, if the kind has no negative values, without a sign, and it must be in range. -/
def integer? (kind : IntegerKind) (n : NumberLiteral) : Option Int :=
  if n.isWhole ∧ (n.negative → kind.signed) then
    kind.fit? (if n.negative then -(ofDigits n.whole.chars : Int) else ofDigits n.whole.chars)
  else none

/-! ## Reading the parts -/

theorem endsDigits_exponentChars (n : NumberLiteral) : EndsDigits n.exponentChars := by
  unfold exponentChars
  cases n.exponent with
  | none => exact endsDigits_nil
  | some e => exact endsDigits_cons (by cases e.upper <;> decide) _

theorem exponent?_exponentChars (n : NumberLiteral) :
    exponent? n.exponentChars = some (n.exponent.elim 0 ExponentText.power) := by
  unfold exponentChars
  cases n.exponent with
  | none => rfl
  | some e => exact e.exponent?_chars

theorem splitFraction_chars (n : NumberLiteral) :
    splitFraction (n.fractionChars ++ n.exponentChars) = (n.fractionDigits, n.exponentChars) := by
  unfold fractionChars fractionDigits
  cases n.fraction with
  | none =>
    unfold exponentChars
    cases n.exponent with
    | none => rfl
    | some e =>
      obtain ⟨upper, sign, size⟩ := e
      cases upper <;> rfl
  | some ds => exact span_digits ds.digits n.endsDigits_exponentChars

theorem endsDigits_fractionChars (n : NumberLiteral) :
    EndsDigits (n.fractionChars ++ n.exponentChars) := by
  unfold fractionChars
  cases n.fraction with
  | none => exact n.endsDigits_exponentChars
  | some ds => exact endsDigits_cons (by decide) _

/-- The size of a number is read from its parts. -/
theorem parse?_unsigned (n : NumberLiteral) : Decimal.parse? n.unsigned = some n.size := by
  rw [Decimal.parse?, unsigned, span_digits n.whole.digits n.endsDigits_fractionChars]
  dsimp only
  rw [splitFraction_chars]
  dsimp only
  rw [if_neg (fun h => n.whole.nonempty h.1), exponent?_exponentChars, Option.map_some,
    ofLongDigits_eq, size]

theorem exists_unsigned_eq_cons (n : NumberLiteral) :
    ∃ c r, n.unsigned = c :: r ∧ isDigit c = true := by
  obtain ⟨c, r, hc, hd⟩ := n.whole.exists_cons
  exact ⟨c, r ++ (n.fractionChars ++ n.exponentChars), by rw [unsigned, hc]; rfl, hd⟩

theorem splitSign_numberChars (n : NumberLiteral) :
    splitSign n.chars = (n.negative, n.unsigned) := by
  obtain ⟨c, r, hc, hd⟩ := n.exists_unsigned_eq_cons
  unfold chars
  cases n.negative with
  | true => rfl
  | false =>
    have hm : c ≠ '-' := by rintro rfl; revert hd; decide
    have hp : c ≠ '+' := by rintro rfl; revert hd; decide
    rw [hc]
    unfold splitSign
    split
    · next h => exact absurd (List.cons.inj h).1 hm
    · next h => exact absurd (List.cons.inj h).1 hp
    · rfl

theorem parse?_chars (fmt : BinaryFormat) (n : NumberLiteral) :
    Binary.parse? fmt n.chars = some (n.binary fmt) := by
  rw [Binary.parse?, splitSign_numberChars]
  dsimp only
  rw [parse?_unsigned]
  rfl

theorem digits?_unsigned (n : NumberLiteral) :
    IntegerKind.digits? n.unsigned =
      if n.isWhole then some (ofDigits n.whole.chars) else none := by
  have hne : n.unsigned ≠ [] := by
    obtain ⟨c, r, hc, -⟩ := n.exists_unsigned_eq_cons
    simp [hc]
  unfold IntegerKind.digits?
  rw [ofLongDigits_eq, unsigned] at *
  unfold fractionChars exponentChars isWhole at *
  cases n.fraction with
  | some ds => simp [isDigit]
  | none =>
    cases n.exponent with
    | some e =>
      have he : e.chars.all isDigit = false := by
        obtain ⟨upper, sign, size⟩ := e
        cases upper <;> rfl
      simp [he]
    | none => simp [n.whole.digits, n.whole.nonempty]

theorem parse?_integer (kind : IntegerKind) (n : NumberLiteral) :
    kind.parse? n.chars = n.integer? kind := by
  obtain ⟨c, r, hc, hd⟩ := n.exists_unsigned_eq_cons
  unfold chars integer?
  cases n.negative with
  | true =>
    have h : kind.parse? ('-' :: n.unsigned)
        = if kind.signed then (IntegerKind.digits? n.unsigned).bind fun m => kind.fit? (-m)
          else none := rfl
    simp only [if_true, List.singleton_append, h, digits?_unsigned, true_implies]
    by_cases hw : n.isWhole = true
    · simp [hw]
    · simp [hw]
  | false =>
    have h : kind.parse? n.unsigned
        = (IntegerKind.digits? n.unsigned).bind fun m => kind.fit? m := by
      rw [hc, IntegerKind.parse?_of_isDigit kind hd]
    simp only [Bool.false_eq_true, if_false, List.nil_append, h, digits?_unsigned, false_implies,
      and_true]
    by_cases hw : n.isWhole = true
    · simp [hw]
    · simp [hw]

/-! ## Values of numbers -/

/-- All digits of an exponent count up to the bound and one digit more. -/
theorem exponentSize_eq (ds : List Char) (h : ofDigits ds < 10 * exponentBound) :
    exponentSize ds = ofDigits ds := by
  have key : ∀ (n : Nat) (ds : List Char), n * 10 ^ ds.length + ofDigits ds < 10 * exponentBound →
      ds.foldl (fun e d => if e < exponentBound then e * 10 + digitValue d else e) n
        = n * 10 ^ ds.length + ofDigits ds := by
    intro n ds
    induction ds generalizing n with
    | nil => simp [ofDigits]
    | cons d ds ih =>
      intro hn
      have hsplit : ofDigits (d :: ds) = digitValue d * 10 ^ ds.length + ofDigits ds := by
        have happ := ofDigits_append [d] ds
        simpa [ofDigits] using happ
      -- While digits are left, what has been counted is below the bound, so none is dropped.
      have hlt : n < exponentBound := by
        have h1 : 1 ≤ 10 ^ ds.length := Nat.one_le_pow _ _ (by decide)
        have h2 : n * 10 * 1 ≤ n * 10 * 10 ^ ds.length := Nat.mul_le_mul_left _ h1
        rw [List.length_cons, Nat.pow_succ', ← Nat.mul_assoc] at hn
        omega
      have hnext : n * 10 ^ (d :: ds).length + ofDigits (d :: ds)
          = (n * 10 + digitValue d) * 10 ^ ds.length + ofDigits ds := by
        rw [hsplit, List.length_cons, Nat.pow_succ']
        ring
      rw [List.foldl_cons, if_pos hlt, hnext]
      rw [hnext] at hn
      exact ih _ hn
  have h0 := key 0 ds (by simpa using h)
  simpa [exponentSize] using h0

/-- A number whose exponent is not too large is read by all digits of its exponent. -/
theorem size_eq_exactSize (n : NumberLiteral)
    (h : ∀ e, n.exponent = some e → ofDigits e.size.chars < 10 * exponentBound) :
    n.size = n.exactSize := by
  unfold exactSize size
  cases he : n.exponent with
  | none => rfl
  | some e =>
    have hpower : e.power = e.exactPower := by
      rw [ExponentText.power, ExponentText.exactPower, exponentSize_eq _ (h e he)]
    simp [hpower]

/-- What a number in a binary format is: it has the sign of the number, and its magnitude is nearest
to the size of the number. -/
structure Rounds (n : NumberLiteral) (size : Decimal) {fmt : BinaryFormat} (x : Binary fmt) :
    Prop where
  sign : x.isNegative = n.negative
  magnitude : fmt.IsNearest size.value x.magnitude

theorem rounds_binary {fmt : BinaryFormat} (hf : fmt.IsInterchange) (n : NumberLiteral) :
    n.Rounds n.size (n.binary fmt) := by
  have hn := Decimal.isNearest_round hf n.size
  refine ⟨Binary.isNegative_ofMagnitude _ hn.le, ?_⟩
  rw [binary, Binary.magnitude_ofMagnitude _ hn.le]
  exact hn

/-! ## Bytes of numbers -/

/-- Whether a character may stand in a number. -/
def isNumberChar (c : Char) : Bool :=
  isDigit c || c == '.' || c == 'e' || c == 'E' || c == '+' || c == '-'

theorem toNat_numberChar {c : Char} (h : isNumberChar c = true) : c.toNat < 0x80 := by
  simp only [isNumberChar, Bool.or_eq_true, beq_iff_eq, isDigit_iff] at h
  rcases h with ((((h | rfl) | rfl) | rfl) | rfl) | rfl
  · omega
  all_goals decide

theorem isNumberByte_ascii {c : Char} (h : isNumberChar c = true) :
    TokenKind.isNumberByte (ascii c) = true := by
  have hc := toNat_numberChar h
  have key : ∀ i < 0x80, isNumberChar (Char.ofNat i) = true →
      TokenKind.isNumberByte (ascii (Char.ofNat i)) = true := by decide +kernel
  rw [← Char.ofNat_toNat c] at h ⊢
  exact key _ hc h

/-- Numbers are spelled one byte a character. -/
theorem encode_eq_map {cs : List Char} (h : ∀ c ∈ cs, isNumberChar c = true) :
    Utf8.encode cs = cs.map ascii := by
  induction cs with
  | nil => rfl
  | cons c cs ih =>
    rw [Utf8.encode_cons, Utf8.encodeChar_ascii (toNat_numberChar (h c (by simp))),
      ih fun d hd => h d (by simp [hd])]
    rfl

theorem numberChars_encode {cs : List Char} (h : ∀ c ∈ cs, isNumberChar c = true) :
    numberChars (Utf8.encode cs) = cs := by
  rw [encode_eq_map h, numberChars, List.map_map]
  refine (List.map_congr_left fun c hc => ?_).trans (List.map_id cs)
  have hlt := toNat_numberChar (h c hc)
  rw [Function.comp_apply, toNat_ascii (by omega), Char.ofNat_toNat, id]

theorem isNumberChar_of_digits (ds : Digits) : ∀ c ∈ ds.chars, isNumberChar c = true := by
  intro c hc
  simp [isNumberChar, List.all_eq_true.1 ds.digits c hc]

theorem isNumberChar_chars (n : NumberLiteral) : ∀ c ∈ n.chars, isNumberChar c = true := by
  intro c hc
  simp only [chars, unsigned, List.mem_append] at hc
  rcases hc with hc | hc | hc | hc
  · cases hn : n.negative <;> simp [hn] at hc
    rw [hc]
    decide
  · exact isNumberChar_of_digits n.whole c hc
  · unfold fractionChars at hc
    cases hf : n.fraction with
    | none => simp [hf] at hc
    | some ds =>
      rw [hf, Option.elim_some, List.mem_cons] at hc
      rcases hc with rfl | hc
      · decide
      · exact isNumberChar_of_digits ds c hc
  · unfold exponentChars at hc
    cases he : n.exponent with
    | none => simp [he] at hc
    | some e =>
      rw [he, Option.elim_some, ExponentText.chars, List.mem_cons, List.mem_append] at hc
      rcases hc with rfl | hc | hc
      · cases e.upper <;> decide
      · cases hs : e.sign <;> simp [hs, ExponentSign.chars] at hc <;> rw [hc] <;> decide
      · exact isNumberChar_of_digits e.size c hc

/-- A number begins as a number token does. -/
theorem exists_chars_eq_cons (n : NumberLiteral) :
    ∃ c r, n.chars = c :: r ∧ (c = '-' ∨ isDigit c = true) := by
  obtain ⟨c, r, hc, hd⟩ := n.exists_unsigned_eq_cons
  unfold chars
  cases n.negative with
  | true => exact ⟨'-', n.unsigned, rfl, .inl rfl⟩
  | false => exact ⟨c, r, hc, .inr hd⟩

theorem isDigitByte_ascii {c : Char} (h : isDigit c = true) : isDigitByte (ascii c) = true := by
  have hc := (isDigit_iff c).1 h
  have hb : (ascii c).toNat = c.toNat := toNat_ascii (by omega)
  rw [isDigitByte, Bool.and_eq_true, decide_eq_true_eq, decide_eq_true_eq,
    UInt8.le_iff_toNat_le, UInt8.le_iff_toNat_le, hb]
  exact hc

theorem isRun_chars (n : NumberLiteral) : IsNumberRun (Utf8.encode n.chars) := by
  rw [encode_eq_map n.isNumberChar_chars]
  constructor
  · obtain ⟨c, r, hc, hs⟩ := n.exists_chars_eq_cons
    refine ⟨ascii c, r.map ascii, by rw [hc]; rfl, ?_⟩
    rcases hs with rfl | hd
    · exact .inl rfl
    · exact .inr (isDigitByte_ascii hd)
  · intro b hb
    obtain ⟨c, hc, rfl⟩ := List.mem_map.1 hb
    exact isNumberByte_ascii (n.isNumberChar_chars c hc)

instance : Numeral NumberLiteral where
  bytes n := Utf8.encode n.chars
  integer? := integer?
  binary? fmt n := some (n.binary fmt)
  isRun := isRun_chars
  integer?_eq kind n := by rw [numberChars_encode n.isNumberChar_chars, parse?_integer]
  binary?_eq fmt n := by rw [numberChars_encode n.isNumberChar_chars, parse?_chars]

/-! ## Writing -/

/-- The number of an integer as it is written. -/
def ofInt (v : Int) : NumberLiteral where
  negative := v < 0
  whole := .ofNat v.natAbs
  canonical h := by
    by_cases h0 : v.natAbs = 0
    · rw [h0]
      exact decimal_zero
    · exact absurd h (head?_decimal_ne h0)
  fraction := none
  exponent := none

theorem chars_ofInt (v : Int) : (ofInt v).chars = decimalInt v := by
  unfold decimalInt
  by_cases h : v < 0 <;>
    simp [chars, unsigned, ofInt, fractionChars, exponentChars, Digits.ofNat, h]

/-- An integer that is written reads as itself. -/
theorem integer?_ofInt {kind : IntegerKind} {v : Int} (h : kind.Holds v) :
    (ofInt v).integer? kind = some v := by
  have hsign : v < 0 → kind.signed = true := by
    intro hv
    have hl := h.1
    cases kind with
    | int32 => rfl
    | int64 => rfl
    | uint32 => exact absurd hl (by simp only [IntegerKind.least]; omega)
    | uint64 => exact absurd hl (by simp only [IntegerKind.least]; omega)
  have hv : (if v < 0 then -((ofDigits (decimal v.natAbs) : Nat) : Int)
      else (ofDigits (decimal v.natAbs) : Nat)) = v := by
    rw [ofDigits_decimal]
    split <;> omega
  simp only [integer?, isWhole, ofInt, Digits.ofNat, decide_eq_true_eq, Option.isNone_none,
    Bool.and_self, true_and]
  rw [if_pos hsign, hv, IntegerKind.fit?, if_pos h]

/-- A number other than zero has no leading zero, also with zeros after it. -/
theorem canonical_shift {digits : Nat} (h : digits ≠ 0) (zeros : Nat)
    (hz : ((Digits.ofNat digits).shift zeros).chars.head? = some '0') :
    ((Digits.ofNat digits).shift zeros).chars = ['0'] := by
  have hz' : (decimal digits ++ List.replicate zeros '0').head? = some '0' := hz
  rw [List.head?_append_of_ne_nil _ (decimal_ne_nil digits)] at hz'
  exact absurd hz' (head?_decimal_ne h)

/-- The first digits of a number other than zero have no leading zero. -/
theorem canonical_front {digits n : Nat} (h : digits ≠ 0) (hn : n ≠ 0)
    (hz : ((Digits.ofNat digits).front n hn).chars.head? = some '0') :
    ((Digits.ofNat digits).front n hn).chars = ['0'] := by
  have hz' : ((decimal digits).take n).head? = some '0' := hz
  rw [List.head?_take, if_neg hn] at hz'
  exact absurd hz' (head?_decimal_ne h)

/-- The number of a sign, digits and a power of ten as it is written. -/
def ofDecimal (negative : Bool) (digits : Nat) (h : digits ≠ 0) : Int → NumberLiteral
  | .ofNat zeros =>
    { negative
      whole := (Digits.ofNat digits).shift zeros
      canonical := canonical_shift h zeros
      fraction := none
      exponent := none }
  | .negSucc k =>
    if hk : k + 1 < (decimal digits).length then
      { negative
        whole := (Digits.ofNat digits).front ((decimal digits).length - (k + 1))
          (Nat.sub_ne_zero_of_lt hk)
        canonical := canonical_front h (Nat.sub_ne_zero_of_lt hk)
        fraction := some ((Digits.ofNat digits).back ((decimal digits).length - (k + 1))
          (Nat.sub_lt_self k.succ_pos hk.le))
        exponent := none }
    else
      { negative
        whole := .ofNat 0
        canonical := fun _ => Digits.chars_zero
        fraction := some ((Digits.ofNat digits).pad (k + 1 - (decimal digits).length))
        exponent := none }

theorem negative_ofDecimal (negative : Bool) {digits : Nat} (h : digits ≠ 0) (e : Int) :
    (ofDecimal negative digits h e).negative = negative := by
  unfold ofDecimal
  split
  · rfl
  · split <;> rfl

theorem unsigned_ofDecimal (negative : Bool) {digits : Nat} (h : digits ≠ 0) (e : Int) :
    (ofDecimal negative digits h e).unsigned = Decimal.text ⟨digits, e⟩ := by
  unfold ofDecimal Decimal.text
  cases e with
  | ofNat zeros =>
    simp [unsigned, fractionChars, exponentChars, Digits.shift, Digits.ofNat]
  | negSucc k =>
    dsimp only
    split
    · simp [unsigned, fractionChars, exponentChars, Digits.front, Digits.back, Digits.ofNat]
    · simp [unsigned, fractionChars, exponentChars, Digits.pad, Digits.ofNat, decimal_zero]

/-- The size of a number that is written is that of the decimal. -/
theorem value_ofDecimal (negative : Bool) {digits : Nat} (h : digits ≠ 0) (e : Int) :
    (ofDecimal negative digits h e).size.value = (⟨digits, e⟩ : Decimal).value := by
  unfold ofDecimal
  cases e with
  | ofNat zeros =>
    simp [size, fractionDigits, Digits.shift, Digits.ofNat, ofDigits_append,
      ofDigits_replicate_zero, ofDigits_decimal, Decimal.value]
  | negSucc k =>
    have hexp : -((k + 1 : Nat) : Int) = Int.negSucc k := rfl
    -- The point falls among the digits, or zeros fill up the places behind it.
    dsimp only
    split
    · next hk =>
      have hlen : ((decimal digits).drop ((decimal digits).length - (k + 1))).length = k + 1 := by
        rw [List.length_drop]
        omega
      simp only [size, fractionDigits, Option.elim_some, Option.elim_none, Digits.front,
        Digits.back, Digits.ofNat]
      rw [List.take_append_drop, ofDigits_decimal, hlen, Int.zero_sub, hexp]
    · next hk =>
      have hlen : (List.replicate (k + 1 - (decimal digits).length) '0' ++ decimal digits).length
          = k + 1 := by
        rw [List.length_append, List.length_replicate]
        omega
      simp only [size, fractionDigits, Option.elim_some, Option.elim_none, Digits.pad,
        Digits.ofNat]
      rw [hlen, ofDigits_append, ofDigits_append, ofDigits_replicate_zero, ofDigits_decimal,
        ofDigits_decimal, Int.zero_sub, hexp]
      simp

/-- A zero as it is written. -/
def zero (negative : Bool) : NumberLiteral :=
  ⟨negative, .ofNat 0, fun _ => Digits.chars_zero, none, none⟩

/-- A decimal and its sign as they are written. -/
def ofSigned (negative : Bool) (d : Decimal) : NumberLiteral :=
  if h : d.digits = 0 then zero negative else ofDecimal negative d.digits h d.exponent

theorem ofSigned_spec (negative : Bool) {d : Decimal} (h : d.digits ≠ 0) :
    (ofSigned negative d).negative = negative ∧ (ofSigned negative d).unsigned = d.text ∧
      (ofSigned negative d).size.value = d.value := by
  rw [ofSigned, dif_neg h]
  exact ⟨negative_ofDecimal negative h _, unsigned_ofDecimal negative h _,
    value_ofDecimal negative h _⟩

/-- The number of a finite binary value as it is written. -/
def ofBinary {fmt : BinaryFormat} (x : Binary fmt) : NumberLiteral :=
  if x.magnitude = 0 then zero x.isNegative
  else ofSigned x.isNegative (fmt.shortest .greater x.magnitude).trim

variable {fmt : BinaryFormat} {x : Binary fmt}

/-- The shortest decimal of a value other than zero has a digit other than zero. -/
theorem digits_shortest_ne (hf : fmt.IsInterchange) (hx : x.isFinite = true)
    (h0 : x.magnitude ≠ 0) : (fmt.shortest .greater x.magnitude).trim.digits ≠ 0 := by
  intro hd
  have hlt : x.magnitude < fmt.infinity := of_decide_eq_true hx
  have hr := BinaryFormat.round_shortest hf .greater hlt.le
  rw [← Decimal.round_congr hf (Decimal.value_trim _), Decimal.round, if_pos hd] at hr
  exact h0 hr.symm

theorem chars_ofBinary (hf : fmt.IsInterchange) (hx : x.isFinite = true) :
    (ofBinary x).chars = x.text := by
  have hlt : x.magnitude < fmt.infinity := of_decide_eq_true hx
  have hnan : x.isNaN = false := by
    rw [Binary.isNaN, decide_eq_false_iff_not]
    omega
  have hsign : ∀ cs : List Char, (if x.isNegative = true then ['-'] else []) ++ cs
      = if x.isNegative = true then '-' :: cs else cs := fun cs => by split <;> rfl
  rw [Binary.text, hnan, if_neg (by decide), if_neg hlt.ne]
  by_cases h0 : x.magnitude = 0
  · rw [if_pos h0, ofBinary, if_pos h0, chars]
    simp [zero, hsign, unsigned, fractionChars, exponentChars, Digits.ofNat, decimal_zero]
  · obtain ⟨hnegative, hunsigned, -⟩ := ofSigned_spec x.isNegative (digits_shortest_ne hf hx h0)
    rw [if_neg h0, ofBinary, if_neg h0, chars, hnegative, hunsigned, hsign]

/-- A binary value that is written reads as itself. -/
theorem binary_ofBinary (hf : fmt.IsInterchange) (hx : x.isFinite = true) :
    (ofBinary x).binary fmt = x := by
  have hlt : x.magnitude < fmt.infinity := of_decide_eq_true hx
  rw [binary]
  by_cases h0 : x.magnitude = 0
  · have hsize : (zero x.isNegative).size.round fmt = x.magnitude := by
      rw [h0, Decimal.round, if_pos]
      simp [zero, size, fractionDigits, Digits.ofNat, ofDigits_decimal]
    rw [ofBinary, if_pos h0, hsize]
    exact Binary.ofMagnitude_eq x
  · obtain ⟨hnegative, -, hvalue⟩ := ofSigned_spec x.isNegative (digits_shortest_ne hf hx h0)
    have hsize := Decimal.round_congr hf (hvalue.trans (Decimal.value_trim _))
    rw [BinaryFormat.round_shortest hf .greater hlt.le] at hsize
    rw [ofBinary, if_neg h0, hnegative, hsize, Binary.ofMagnitude_eq]

end NumberLiteral

end Grammar

end ProtoJson
