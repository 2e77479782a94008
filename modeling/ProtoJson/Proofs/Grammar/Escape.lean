import ProtoJson.Proofs.Text.Utf8
import ProtoJson.Text.Escape

/-!
# Escaped texts

A text can be read with its escapes decoded exactly where it is cut, from the left, into characters
other than the backslash, two-character escapes, and code units in four hexadecimal digits. Two
units side by side that are the halves of a surrogate pair are one character; a half without the
other stands for U+FFFD.
-/

namespace ProtoJson.Grammar

open Escape

/-! ## Escapes -/

/-- The escapes of two characters. -/
inductive ShortEscape where
  | quote
  | backslash
  | slash
  | backspace
  | formFeed
  | lineFeed
  | carriageReturn
  | tab
  deriving DecidableEq, Repr

namespace ShortEscape

/-- The character after the backslash. -/
def mark : ShortEscape → Char
  | quote => '"'
  | backslash => '\\'
  | slash => '/'
  | backspace => 'b'
  | formFeed => 'f'
  | lineFeed => 'n'
  | carriageReturn => 'r'
  | tab => 't'

/-- The character that an escape stands for. -/
def meaning : ShortEscape → Char
  | quote => '"'
  | backslash => '\\'
  | slash => '/'
  | backspace => '\x08'
  | formFeed => '\x0c'
  | lineFeed => '\n'
  | carriageReturn => '\r'
  | tab => '\t'

theorem shortEscape?_mark (e : ShortEscape) : shortEscape? e.mark = some e.meaning := by
  cases e <;> rfl

theorem mark_ne (e : ShortEscape) : e.mark ≠ 'u' := by cases e <;> decide

theorem mark_ascii (e : ShortEscape) : e.mark.toNat < 0x80 := by cases e <;> decide

end ShortEscape

theorem hexValue?_hexDigit : ∀ n < 16,
    hexValue? (hexDigit n) = some n ∧ hexValue? (hexDigit n).toUpper = some n := by decide

/-- The characters with a value are the hexadecimal digits in lower and in upper case. -/
theorem hexValue?_eq_some_iff {c : Char} {n : Nat} :
    hexValue? c = some n ↔ n < 16 ∧ (c = hexDigit n ∨ c = (hexDigit n).toUpper) := by
  constructor
  · have bound : ∀ {lo hi : Char}, lo ≤ c ∧ c ≤ hi → lo.toNat ≤ c.toNat ∧ c.toNat ≤ hi.toNat :=
      fun h => ⟨UInt32.le_iff_toNat_le.1 h.1, UInt32.le_iff_toNat_le.1 h.2⟩
    intro h
    unfold hexValue? at h
    split_ifs at h with hdigit hlower hupper
    · obtain ⟨hlo, hhi⟩ : 48 ≤ c.toNat ∧ c.toNat ≤ 57 := bound hdigit
      obtain rfl : c.toNat - 48 = _ := Option.some.inj h
      refine ⟨by omega, .inl ?_⟩
      rw [hexDigit, if_pos (by omega), Nat.add_sub_cancel' hlo, Char.ofNat_toNat]
    · obtain ⟨hlo, hhi⟩ : 97 ≤ c.toNat ∧ c.toNat ≤ 102 := bound hlower
      obtain rfl : c.toNat - 87 = _ := Option.some.inj h
      refine ⟨by omega, .inl ?_⟩
      rw [hexDigit, if_neg (by omega), Nat.add_sub_cancel' (by omega), Char.ofNat_toNat]
    · obtain ⟨hlo, hhi⟩ : 65 ≤ c.toNat ∧ c.toNat ≤ 70 := bound hupper
      obtain rfl : c.toNat - 55 = _ := Option.some.inj h
      have hletter : ∀ i < 16, 10 ≤ i → Char.ofNat (55 + i) = (hexDigit i).toUpper := by decide
      refine ⟨by omega, .inr ?_⟩
      rw [← hletter _ (by omega) (by omega), Nat.add_sub_cancel' (by omega), Char.ofNat_toNat]
  · rintro ⟨hn, rfl | rfl⟩
    · exact (hexValue?_hexDigit n hn).1
    · exact (hexValue?_hexDigit n hn).2

/-- A hexadecimal digit of either case. -/
structure HexDigit where
  char : Char
  value : Nat
  hex : hexValue? char = some value
  deriving DecidableEq

namespace HexDigit

/-- No hexadecimal digit is a quote or a backslash. -/
theorem char_ne (d : HexDigit) : d.char ≠ '"' ∧ d.char ≠ '\\' := by
  have hother : ∀ n < 16, (hexDigit n ≠ '"' ∧ hexDigit n ≠ '\\') ∧
      (hexDigit n).toUpper ≠ '"' ∧ (hexDigit n).toUpper ≠ '\\' := by decide
  obtain ⟨hlt, hc | hc⟩ := hexValue?_eq_some_iff.1 d.hex <;> rw [hc]
  · exact (hother _ hlt).1
  · exact (hother _ hlt).2

/-- The lower-case digit of a number below 16. -/
def ofNat (n : Nat) : HexDigit :=
  ⟨hexDigit (n % 16), n % 16, (hexValue?_hexDigit _ (Nat.mod_lt n (by decide))).1⟩

end HexDigit

/-- A code unit in four hexadecimal digits. -/
structure CodeUnit where
  first : HexDigit
  second : HexDigit
  third : HexDigit
  fourth : HexDigit
  deriving DecidableEq

namespace CodeUnit

/-- The digits of a unit. -/
def source (u : CodeUnit) : List Char :=
  [u.first.char, u.second.char, u.third.char, u.fourth.char]

/-- The number of a unit. -/
def value (u : CodeUnit) : Nat :=
  ((u.first.value * 16 + u.second.value) * 16 + u.third.value) * 16 + u.fourth.value

/-- The unit of a number, in lower case. -/
def ofNat (n : Nat) : CodeUnit :=
  ⟨.ofNat (n / 4096), .ofNat (n / 256), .ofNat (n / 16), .ofNat n⟩

theorem hex4?_source (u : CodeUnit) (r : List Char) :
    hex4? (u.source ++ r) = some (u.value, r) := by
  simp [source, hex4?, HexDigit.hex, value]

theorem value_ofNat {n : Nat} (h : n < 65536) : (ofNat n).value = n := by
  simp only [value, ofNat, HexDigit.ofNat]
  omega

end CodeUnit

/-! ## Pieces -/

/-- A piece of an escaped text. -/
inductive EscapePiece where
  | plain (c : Char) (h : c ≠ '\\')
  | short (e : ShortEscape)
  | unit (u : CodeUnit)

namespace EscapePiece

/-- A piece as it is spelled. -/
def source : EscapePiece → List Char
  | plain c _ => [c]
  | short e => ['\\', e.mark]
  | unit u => '\\' :: 'u' :: u.source

/-- The pieces as they are spelled. -/
def sourceOf (pieces : List EscapePiece) : List Char := pieces.flatMap source

/-- The character of a piece that is joined to none. Half of a surrogate pair is no character. -/
def char : EscapePiece → Char
  | plain c _ => c
  | short e => e.meaning
  | unit u =>
    if isHighSurrogate u.value ∨ isLowSurrogate u.value then Utf8.replacement
    else Char.ofNat u.value

/-- The character of two pieces that are the halves of a surrogate pair, the high one first. -/
def joined? : EscapePiece → EscapePiece → Option Char
  | unit u, unit v =>
    if isHighSurrogate u.value ∧ isLowSurrogate v.value then
      some (Char.ofNat (0x10000 + (u.value - 0xD800) * 1024 + (v.value - 0xDC00)))
    else none
  | _, _ => none

/-- What pieces stand for. -/
def meaningOf : List EscapePiece → List Char
  | [] => []
  | [p] => [p.char]
  | p :: q :: r =>
    match p.joined? q with
    | some c => c :: meaningOf r
    | none => p.char :: meaningOf (q :: r)

/-- Only a high half is joined to what follows it. -/
theorem joined?_of_not_high {u : CodeUnit} (hu : ¬ isHighSurrogate u.value) (q : EscapePiece) :
    (unit u).joined? q = none := by
  cases q with
  | unit v => exact if_neg fun h => hu h.1
  | _ => rfl

/-- Two units are joined to the character beyond U+FFFF whose form in UTF-16 they are. -/
theorem joined?_eq_some_iff {u v : CodeUnit} {c : Char} :
    (unit u).joined? (unit v) = some c ↔ 0x10000 ≤ c.toNat ∧
      u.value = 0xD800 + (c.toNat - 0x10000) / 1024 ∧
        v.value = 0xDC00 + (c.toNat - 0x10000) % 1024 := by
  have hc := Utf8.toNat_char c
  simp only [joined?, isHighSurrogate, isLowSurrogate, Bool.and_eq_true, decide_eq_true_eq]
  constructor
  · intro h
    split at h
    · next huv =>
      have hvalid : ∀ n, 0xDFFF < n ∧ n < 0x110000 → (Char.ofNat n).toNat = n := by
        intro n hn
        rw [Char.ofNat, dif_pos (.inr hn)]
        rfl
      have hnat := congrArg Char.toNat (Option.some.inj h)
      rw [hvalid _ (by omega)] at hnat
      omega
    · cases h
  · rintro ⟨hle, hu, hv⟩
    have hnat : 0x10000 + (u.value - 0xD800) * 1024 + (v.value - 0xDC00) = c.toNat := by omega
    rw [if_pos (by omega), hnat, Char.ofNat_toNat]

@[simp] theorem sourceOf_nil : sourceOf [] = [] := rfl

@[simp] theorem sourceOf_cons (p : EscapePiece) (ps : List EscapePiece) :
    sourceOf (p :: ps) = p.source ++ sourceOf ps := List.flatMap_cons

/-- Nothing is joined to a piece that no other one follows. -/
theorem meaningOf_cons {p : EscapePiece} {r : List EscapePiece}
    (h : ∀ q ∈ r.head?, p.joined? q = none) : meaningOf (p :: r) = p.char :: meaningOf r := by
  cases r with
  | nil => rfl
  | cons q r => rw [meaningOf, h q rfl]

/-! ## Reading the pieces -/

/-- A backslash is read with the escape that it begins. -/
theorem unescape?_escaped {lone : Option Char} {cs r : List Char} {e : Char}
    (h : escaped? lone cs = some (e, r)) :
    unescape? lone ('\\' :: cs) = (unescape? lone r).map (e :: ·) := by
  rw [unescape?, if_pos rfl]
  split
  · next h' =>
    rw [h] at h'
    cases h'
  · next h' =>
    rw [h] at h'
    cases h'
    rfl

/-- A code unit is read with what `ofUnit` takes along. -/
theorem unescape?_unit {u : CodeUnit} {cs r : List Char} {e : Char}
    (h : ofUnit (some Utf8.replacement) u.value cs = some (e, r)) :
    unescape? (some Utf8.replacement) ((unit u).source ++ cs)
      = (unescape? (some Utf8.replacement) r).map (e :: ·) := by
  have he : escaped? (some Utf8.replacement) ('u' :: (u.source ++ cs)) = some (e, r) := by
    rw [escaped?, if_pos rfl, u.hex4?_source]
    exact h
  exact unescape?_escaped he

theorem lowSurrogate?_unit (v : CodeUnit) (cs : List Char) :
    lowSurrogate? ((unit v).source ++ cs)
      = if isLowSurrogate v.value then some (v.value, cs) else none := by
  simp only [source, List.cons_append, lowSurrogate?, v.hex4?_source]

/-- No low half is found where the next piece is none that could be joined. -/
theorem lowSurrogate?_sourceOf {u : CodeUnit} (hu : isHighSurrogate u.value = true)
    {pieces : List EscapePiece} (h : ∀ q ∈ pieces.head?, (unit u).joined? q = none) :
    lowSurrogate? (sourceOf pieces) = none := by
  cases pieces with
  | nil => rfl
  | cons q ps =>
    rw [sourceOf_cons]
    cases q with
    | plain c hc =>
      rw [source, List.singleton_append]
      unfold lowSurrogate?
      split
      · next heq => exact absurd (List.cons.inj heq).1 hc
      · rfl
    | short e =>
      rw [source, List.cons_append, List.singleton_append]
      unfold lowSurrogate?
      split
      · next heq => exact absurd (List.cons.inj (List.cons.inj heq).2).1 e.mark_ne
      · rfl
    | unit v =>
      have hv : isLowSurrogate v.value = false := by
        simpa [joined?, hu] using h (unit v) rfl
      rw [lowSurrogate?_unit, hv]
      rfl

/-- A piece that is not joined to the next one is read as the character that it is. -/
theorem unescape?_source (p : EscapePiece) {r : List EscapePiece}
    (h : ∀ q ∈ r.head?, p.joined? q = none) :
    unescape? (some Utf8.replacement) (p.source ++ sourceOf r)
      = (unescape? (some Utf8.replacement) (sourceOf r)).map (p.char :: ·) := by
  cases p with
  | plain c hc =>
    rw [source, List.singleton_append, unescape?, if_neg hc]
    rfl
  | short e =>
    have he : escaped? (some Utf8.replacement) (e.mark :: sourceOf r)
        = some (e.meaning, sourceOf r) := by
      rw [escaped?, if_neg e.mark_ne, e.shortEscape?_mark]
      rfl
    exact unescape?_escaped he
  | unit u =>
    apply unescape?_unit
    rw [ofUnit, char]
    by_cases hu : isHighSurrogate u.value = true
    · rw [if_pos hu, if_pos (.inl hu), lowSurrogate?_sourceOf hu h]
      rfl
    · rw [if_neg hu]
      by_cases hu' : isLowSurrogate u.value = true
      · rw [if_pos hu', if_pos (.inr hu')]
        rfl
      · rw [if_neg hu', if_neg (not_or.2 ⟨hu, hu'⟩)]

/-- Two pieces that are joined are read as the one character. -/
theorem unescape?_joined {p q : EscapePiece} {c : Char} (h : p.joined? q = some c)
    (cs : List Char) :
    unescape? (some Utf8.replacement) (p.source ++ (q.source ++ cs))
      = (unescape? (some Utf8.replacement) cs).map (c :: ·) := by
  cases p with
  | unit u =>
    cases q with
    | unit v =>
      rw [joined?] at h
      split at h
      · next huv =>
        obtain rfl := Option.some.inj h
        apply unescape?_unit
        rw [ofUnit, if_pos huv.1, lowSurrogate?_unit, if_pos huv.2]
      · cases h
    | _ => cases h
  | _ => cases h

/-- Pieces are read as what they stand for. -/
theorem unescape?_sourceOf (pieces : List EscapePiece) :
    unescape? (some Utf8.replacement) (sourceOf pieces) = some (meaningOf pieces) := by
  fun_induction meaningOf pieces with
  | case1 => rw [sourceOf_nil, unescape?]
  | case2 p =>
    rw [sourceOf_cons, unescape?_source p (by simp), sourceOf_nil, unescape?]
    rfl
  | case3 p q r c hc ih =>
    rw [sourceOf_cons, sourceOf_cons, unescape?_joined hc, ih]
    rfl
  | case4 p q r hc ih =>
    rw [sourceOf_cons, unescape?_source p (by simpa using hc), ih]
    rfl

/-! ## Cutting a text into pieces -/

theorem exists_short {c d : Char} (h : shortEscape? c = some d) :
    ∃ e : ShortEscape, e.mark = c := by
  unfold shortEscape? at h
  split_ifs at h with h₁ h₂ h₃ h₄ h₅ h₆ h₇ h₈
  · exact ⟨.quote, h₁.symm⟩
  · exact ⟨.backslash, h₂.symm⟩
  · exact ⟨.slash, h₃.symm⟩
  · exact ⟨.backspace, h₄.symm⟩
  · exact ⟨.formFeed, h₅.symm⟩
  · exact ⟨.lineFeed, h₆.symm⟩
  · exact ⟨.carriageReturn, h₇.symm⟩
  · exact ⟨.tab, h₈.symm⟩

theorem exists_unit {cs r : List Char} {n : Nat} (h : hex4? cs = some (n, r)) :
    ∃ u : CodeUnit, cs = u.source ++ r ∧ u.value = n := by
  unfold hex4? at h
  split at h
  · simp only [Option.bind_eq_bind, Option.bind_eq_some_iff] at h
    obtain ⟨a, ha, b, hb, c, hc, d, hd, h⟩ := h
    cases h
    exact ⟨⟨⟨_, a, ha⟩, ⟨_, b, hb⟩, ⟨_, c, hc⟩, ⟨_, d, hd⟩⟩, rfl, rfl⟩
  · cases h

/-- The low half of a pair that is found is the next piece. -/
theorem exists_low {cs r : List Char} {n : Nat} (h : lowSurrogate? cs = some (n, r)) :
    ∃ v : CodeUnit, cs = (unit v).source ++ r := by
  unfold lowSurrogate? at h
  split at h
  · split at h
    · next hhex =>
      split at h
      · cases h
        obtain ⟨v, rfl, -⟩ := exists_unit hhex
        exact ⟨v, rfl⟩
      · cases h
    · cases h
  · cases h

/-- What is read after a backslash is one piece, or two that are joined. -/
theorem exists_pieces_of_escaped? {cs r : List Char} {e : Char}
    (h : escaped? (some Utf8.replacement) cs = some (e, r)) :
    ∃ ps, '\\' :: cs = sourceOf ps ++ r := by
  unfold escaped? at h
  split at h
  · cases h
  · next c cs =>
    split at h
    · next hc =>
      subst hc
      obtain ⟨⟨n, r'⟩, hhex, hunit⟩ := Option.bind_eq_some_iff.1 h
      obtain ⟨u, rfl, -⟩ := exists_unit hhex
      -- A unit stands alone, unless it pairs with the one behind it; then both are passed.
      have halone : '\\' :: 'u' :: (u.source ++ r') = sourceOf [unit u] ++ r' := by
        simp [source]
      dsimp only [ofUnit] at hunit
      split at hunit
      · split at hunit
        · next hlow =>
          obtain ⟨-, rfl⟩ := Prod.mk.inj (Option.some.inj hunit)
          obtain ⟨v, rfl⟩ := exists_low hlow
          exact ⟨[unit u, unit v], by simp [source]⟩
        · cases hunit
          exact ⟨_, halone⟩
      · split at hunit
        · cases hunit
          exact ⟨_, halone⟩
        · cases hunit
          exact ⟨_, halone⟩
    · obtain ⟨d, hd, heq⟩ := Option.map_eq_some_iff.1 h
      cases heq
      obtain ⟨e, rfl⟩ := exists_short hd
      exact ⟨[short e], rfl⟩

/-- A text that is read is cut into pieces. -/
theorem exists_pieces {raw text : List Char}
    (h : unescape? (some Utf8.replacement) raw = some text) : ∃ ps, raw = sourceOf ps := by
  generalize hlone : some Utf8.replacement = lone at h
  fun_induction unescape? lone raw generalizing text with
  | case1 => exact ⟨[], rfl⟩
  | case2 => cases h
  | case3 r e r' he ih =>
    subst hlone
    obtain ⟨text', htext, -⟩ := Option.map_eq_some_iff.1 h
    obtain ⟨ps, rfl⟩ := ih htext
    obtain ⟨qs, hqs⟩ := exists_pieces_of_escaped? he
    exact ⟨qs ++ ps, by simp [hqs, sourceOf]⟩
  | case4 c r hc ih =>
    obtain ⟨text', htext, -⟩ := Option.map_eq_some_iff.1 h
    obtain ⟨ps, rfl⟩ := ih htext
    exact ⟨plain c hc :: ps, rfl⟩

/-- Escapes can be decoded exactly in a text that is cut into pieces, and the result is what the
pieces stand for. -/
theorem unescape?_eq_some_iff (raw text : List Char) :
    unescape? (some Utf8.replacement) raw = some text
      ↔ ∃ pieces, raw = sourceOf pieces ∧ text = meaningOf pieces := by
  constructor
  · intro h
    obtain ⟨pieces, rfl⟩ := exists_pieces h
    exact ⟨pieces, rfl, Option.some.inj (h.symm.trans (unescape?_sourceOf pieces))⟩
  · rintro ⟨pieces, rfl, rfl⟩
    exact unescape?_sourceOf pieces

end EscapePiece

end ProtoJson.Grammar
