import ProtoJson.Proofs.Grammar.Escape
import ProtoJson.Proofs.Grammar.Token

/-!
# Strings of JSON

A string of RFC 8259 is a list of parts: characters that stand for themselves, two-character
escapes, and code units in four hexadecimal digits. Two units that are the halves of a surrogate
pair are one character; a half without the other stands for U+FFFD.
-/

namespace ProtoJson.Grammar

open Escape

/-! ## Parts -/

/-- Whether a character may stand for itself in a string. -/
structure IsPlain (c : Char) : Prop where
  control : 0x20 ≤ c.toNat
  quote : c ≠ '"'
  backslash : c ≠ '\\'

instance (c : Char) : Decidable (IsPlain c) :=
  decidable_of_iff (0x20 ≤ c.toNat ∧ c ≠ '"' ∧ c ≠ '\\')
    ⟨fun ⟨h₁, h₂, h₃⟩ => ⟨h₁, h₂, h₃⟩, fun h => ⟨h.control, h.quote, h.backslash⟩⟩

/-- A part of a string. -/
inductive StringPart where
  | plain (c : Char) (h : IsPlain c)
  | short (e : ShortEscape)
  | unit (u : CodeUnit)

/-- A part as a piece of an escaped text. -/
def StringPart.piece : StringPart → EscapePiece
  | plain c h => .plain c h.backslash
  | short e => .short e
  | unit u => .unit u

/-- A part as it is spelled. -/
def StringPart.source : StringPart → List Char
  | plain c _ => [c]
  | short e => ['\\', e.mark]
  | unit u => '\\' :: 'u' :: u.source

/-! ## Strings -/

/-- A string as RFC 8259 spells it. -/
structure StringLiteral where
  parts : List StringPart

namespace StringLiteral

/-- The parts as they are spelled. -/
def sourceOf (parts : List StringPart) : List Char := parts.flatMap StringPart.source

@[simp] theorem sourceOf_nil : sourceOf [] = [] := rfl

@[simp] theorem sourceOf_cons (p : StringPart) (ps : List StringPart) :
    sourceOf (p :: ps) = p.source ++ sourceOf ps := by
  rw [sourceOf, List.flatMap_cons, sourceOf]

/-- The low half of a surrogate pair that the parts begin with. -/
def low? : List StringPart → Option Nat
  | .unit u :: _ => if isLowSurrogate u.value then some u.value else none
  | _ => none

/-- The character that a surrogate pair stands for. -/
def pair (high low : Nat) : Char :=
  Char.ofNat (0x10000 + (high - 0xD800) * 1024 + (low - 0xDC00))

/-- What the parts stand for. -/
def meaningOf : List StringPart → List Char
  | [] => []
  | .plain c _ :: r => c :: meaningOf r
  | .short e :: r => e.meaning :: meaningOf r
  | .unit u :: r =>
    if isHighSurrogate u.value then
      match low? r with
      | some m => pair u.value m :: meaningOf r.tail
      | none => Utf8.replacement :: meaningOf r
    else if isLowSurrogate u.value then Utf8.replacement :: meaningOf r
    else Char.ofNat u.value :: meaningOf r
termination_by parts => parts.length
decreasing_by all_goals simp only [List.length_cons, List.length_tail]; omega

/-- What stands between the quotes. -/
def source (s : StringLiteral) : List Char := sourceOf s.parts

/-- What the string stands for. -/
def meaning (s : StringLiteral) : String := String.ofList (meaningOf s.parts)

/-- The text of the string, with its escapes decoded or kept. -/
def text (decodeEscapes : Bool) (s : StringLiteral) : String :=
  if decodeEscapes then s.meaning else String.ofList s.source

/-! ## Reading the parts -/

theorem sourceOf_eq_pieces (parts : List StringPart) :
    sourceOf parts = EscapePiece.sourceOf (parts.map StringPart.piece) := by
  rw [sourceOf, EscapePiece.sourceOf, List.flatMap_map]
  congr 1
  funext p
  cases p <;> rfl

theorem exists_of_low? {parts : List StringPart} {m : Nat} (h : low? parts = some m) :
    ∃ v r, parts = .unit v :: r ∧ isLowSurrogate v.value = true ∧ v.value = m := by
  unfold low? at h
  split at h
  · next v r =>
    split at h
    · next hv => exact ⟨v, r, rfl, hv, Option.some.inj h⟩
    · cases h
  · cases h

/-- Where no low half comes first, nothing is joined to what comes first. -/
theorem joined?_eq_none {parts : List StringPart} (h : low? parts = none) (u : CodeUnit) :
    ∀ q ∈ (parts.map StringPart.piece).head?, (EscapePiece.unit u).joined? q = none := by
  intro q hq
  cases parts with
  | nil => cases hq
  | cons p ps =>
    cases hq
    cases p with
    | unit v =>
      have hv : ¬ (isHighSurrogate u.value ∧ isLowSurrogate v.value) := by
        rintro ⟨-, hv⟩
        simp [low?, hv] at h
      exact if_neg hv
    | _ => rfl

/-- The parts stand for what they stand for as pieces. -/
theorem meaningOf_eq_pieces (parts : List StringPart) :
    meaningOf parts = EscapePiece.meaningOf (parts.map StringPart.piece) := by
  fun_induction meaningOf parts with
  | case1 => rfl
  | case2 c h r ih =>
    rw [List.map_cons, EscapePiece.meaningOf_cons fun _ _ => rfl, ← ih]
    rfl
  | case3 e r ih =>
    rw [List.map_cons, EscapePiece.meaningOf_cons fun _ _ => rfl, ← ih]
    rfl
  | case4 u r hu m hm ih =>
    -- A high half is joined to its low half.
    obtain ⟨v, r, rfl, hv, rfl⟩ := exists_of_low? hm
    have hjoined : (EscapePiece.unit u).joined? (.unit v) = some (pair u.value v.value) :=
      if_pos ⟨hu, hv⟩
    rw [List.map_cons, List.map_cons, StringPart.piece, StringPart.piece,
      EscapePiece.meaningOf, hjoined]
    exact congrArg _ ih
  | case5 u r hu hm ih =>
    rw [List.map_cons, StringPart.piece, EscapePiece.meaningOf_cons (joined?_eq_none hm u), ← ih,
      EscapePiece.char, if_pos (.inl hu)]
  | case6 u r hu hu' ih =>
    have hnone := EscapePiece.joined?_of_not_high hu
    rw [List.map_cons, StringPart.piece, EscapePiece.meaningOf_cons fun q _ => hnone q, ← ih,
      EscapePiece.char, if_pos (.inr hu')]
  | case7 u r hu hu' ih =>
    have hnone := EscapePiece.joined?_of_not_high hu
    rw [List.map_cons, StringPart.piece, EscapePiece.meaningOf_cons fun q _ => hnone q, ← ih,
      EscapePiece.char, if_neg (not_or.2 ⟨hu, hu'⟩)]

/-- Reading the escapes gives what the parts stand for. -/
theorem unescape?_sourceOf (parts : List StringPart) :
    unescape? (some Utf8.replacement) (sourceOf parts) = some (meaningOf parts) := by
  rw [sourceOf_eq_pieces, meaningOf_eq_pieces, EscapePiece.unescape?_sourceOf]

/-- A text without backslashes stands for itself. -/
theorem unescape?_of_not_mem (lone : Option Char) (cs : List Char) (h : '\\' ∉ cs) :
    unescape? lone cs = some cs := by
  induction cs with
  | nil => rw [unescape?]
  | cons c cs ih =>
    rw [List.mem_cons, not_or] at h
    rw [unescape?, if_neg (Ne.symm h.1), ih h.2]
    rfl

/-! ## Bytes of strings -/

/-- Bytes that are no quote and no backslash may stand in a string. -/
theorem isStringBody_append {xs : List UInt8} (h : ∀ b ∈ xs, b ≠ ascii '"' ∧ b ≠ ascii '\\')
    (ys : List UInt8) : isStringBody (xs ++ ys) = isStringBody ys := by
  induction xs with
  | nil => rfl
  | cons b xs ih =>
    obtain ⟨h₁, h₂⟩ := h b (by simp)
    rw [List.cons_append, isStringBody.eq_def]
    simp only [h₁, h₂, if_false]
    exact ih fun b hb => h b (by simp [hb])

/-- The byte of an ASCII character other than a quote and a backslash is neither of them. -/
theorem encodeChar_ne {c : Char} (h : c ≠ '"' ∧ c ≠ '\\') :
    ∀ b ∈ Utf8.encodeChar c, b ≠ ascii '"' ∧ b ≠ ascii '\\' := by
  intro b hb
  by_cases hc : c.toNat < 0x80
  · rw [Utf8.encodeChar_ascii hc, List.mem_singleton] at hb
    have inj : ∀ d : Char, d.toNat < 256 → ascii c = ascii d → c = d :=
      fun d hd => ascii_inj (by omega) hd
    rw [hb]
    exact ⟨fun he => h.1 (inj _ (by decide) he), fun he => h.2 (inj _ (by decide) he)⟩
  · have hle := Utf8.le_of_mem_encodeChar (Nat.le_of_not_lt hc) hb
    constructor <;> rintro rfl <;> revert hle <;> decide

/-- What stands between the quotes ends with no backslash of its own and holds no quote of its
own. -/
theorem isStringBody_sourceOf (parts : List StringPart) :
    isStringBody (Utf8.encode (sourceOf parts)) = true := by
  induction parts with
  | nil => rfl
  | cons p ps ih =>
    rw [sourceOf_cons, Utf8.encode_append]
    cases p with
    | plain c h =>
      simp only [StringPart.source, Utf8.encode_cons, Utf8.encode_nil, List.append_nil]
      rw [isStringBody_append (encodeChar_ne ⟨h.quote, h.backslash⟩), ih]
    | short e =>
      simp only [StringPart.source, Utf8.encode_cons, Utf8.encode_nil, List.append_nil]
      rw [Utf8.encodeChar_ascii e.mark_ascii]
      exact ih
    | unit u =>
      have hu : ∀ b ∈ Utf8.encode u.source, b ≠ ascii '"' ∧ b ≠ ascii '\\' := by
        intro b hb
        obtain ⟨c, hc, hb⟩ := List.mem_flatMap.1 hb
        refine encodeChar_ne ?_ b hb
        simp only [CodeUnit.source, List.mem_cons, List.not_mem_nil, or_false] at hc
        rcases hc with rfl | rfl | rfl | rfl <;> exact HexDigit.char_ne _
      simp only [StringPart.source, Utf8.encode_cons]
      show isStringBody (Utf8.encode u.source ++ Utf8.encode (sourceOf ps)) = true
      rw [isStringBody_append hu, ih]

/-- A text without backslashes has no byte of one. -/
theorem not_mem_of_contains {cs : List Char}
    (h : (Utf8.encode cs).contains (ascii '\\') = false) : '\\' ∉ cs := by
  intro hm
  have hb : ascii '\\' ∈ Utf8.encode cs := List.mem_flatMap.2 ⟨'\\', hm, by decide⟩
  rw [List.contains_eq_mem, decide_eq_false_iff_not] at h
  exact h hb

/-- Strings convert to what they stand for, or, with their escapes kept, to what they are spelled
as. -/
instance : Quotation StringLiteral where
  raw s := Utf8.encode s.source
  text? decodeEscapes s := some (s.text decodeEscapes)
  isBody s := isStringBody_sourceOf s.parts
  text?_eq decodeEscapes s := by
    have hu : unescape? (some Utf8.replacement) s.source = some (meaningOf s.parts) :=
      unescape?_sourceOf s.parts
    rw [rawText?, Utf8.decode?_encode, Option.bind_some]
    cases decodeEscapes with
    | false => simp [text]
    | true =>
      cases hc : (Utf8.encode s.source).contains (ascii '\\') with
      | true => simp [hu, text, meaning]
      | false =>
        rw [unescape?_of_not_mem _ _ (not_mem_of_contains hc), Option.some.injEq] at hu
        simp [hu, text, meaning]

/-! ## Writing -/

/-- Whether a character is written as a code unit. -/
def needsUnit (c : Char) : Bool := c.toNat < 0x20 || c = '\u2028' || c = '\u2029'

/-- The part that a character is written as. -/
def partOf (c : Char) : StringPart :=
  if hq : c = '"' then .short .quote
  else if hb : c = '\\' then .short .backslash
  else if c = '\n' then .short .lineFeed
  else if c = '\r' then .short .carriageReturn
  else if c = '\t' then .short .tab
  else if h : needsUnit c then .unit (.ofNat c.toNat)
  else .plain c ⟨by simp [needsUnit] at h; omega, hq, hb⟩

/-- The string of a text as it is written. -/
def ofString (s : String) : StringLiteral := ⟨s.toList.map partOf⟩

theorem source_partOf (c : Char) : (partOf c).source = escapeChar c := by
  unfold partOf escapeChar
  rw [show (decide (c.toNat < 0x20) || decide (c = '\u2028') || decide (c = '\u2029'))
    = needsUnit c from rfl]
  split_ifs
  all_goals rfl

theorem sourceOf_map_partOf (cs : List Char) : sourceOf (cs.map partOf) = escape cs := by
  simp only [sourceOf, escape, List.flatMap_map, source_partOf]

theorem source_ofString (s : String) : (ofString s).source = escape s.toList :=
  sourceOf_map_partOf s.toList

/-- A character stands for itself, however it is written. -/
theorem meaningOf_partOf (c : Char) (r : List StringPart) :
    meaningOf (partOf c :: r) = c :: meaningOf r := by
  unfold partOf
  split_ifs with h₁ h₂ h₃ h₄ h₅ h₆
  · rw [meaningOf, h₁, ShortEscape.meaning]
  · rw [meaningOf, h₂, ShortEscape.meaning]
  · rw [meaningOf, h₃, ShortEscape.meaning]
  · rw [meaningOf, h₄, ShortEscape.meaning]
  · rw [meaningOf, h₅, ShortEscape.meaning]
  · -- What is written as a code unit is no half of a pair.
    have hc : c.toNat < 0x20 ∨ c.toNat = 0x2028 ∨ c.toNat = 0x2029 := by
      simp only [needsUnit, Bool.or_eq_true, decide_eq_true_eq] at h₆
      rcases h₆ with (h | rfl) | rfl
      · exact .inl h
      · exact .inr (.inl rfl)
      · exact .inr (.inr rfl)
    have hv : (CodeUnit.ofNat c.toNat).value = c.toNat := CodeUnit.value_ofNat (by omega)
    have hhigh : isHighSurrogate c.toNat = false := by
      simp [isHighSurrogate]
      omega
    have hlow : isLowSurrogate c.toNat = false := by
      simp [isLowSurrogate]
      omega
    rw [meaningOf, hv, if_neg (by simp [hhigh]), if_neg (by simp [hlow]), Char.ofNat_toNat]
  · rw [meaningOf]

theorem meaningOf_map_partOf (cs : List Char) : meaningOf (cs.map partOf) = cs := by
  induction cs with
  | nil => rw [List.map_nil, meaningOf]
  | cons c cs ih => rw [List.map_cons, meaningOf_partOf, ih]

/-- A text that is written stands for itself. -/
theorem meaning_ofString (s : String) : (ofString s).meaning = s := by
  rw [meaning, ofString, meaningOf_map_partOf, String.ofList_toList]

/-- An escaped text is read as the text. -/
theorem unescape?_escape (cs : List Char) :
    unescape? (some Utf8.replacement) (escape cs) = some cs := by
  have h := unescape?_sourceOf (cs.map partOf)
  rwa [sourceOf_map_partOf, meaningOf_map_partOf] at h

/-- No two texts are escaped alike. -/
theorem escape_injective : Function.Injective escape := by
  intro cs ds h
  exact Option.some.inj ((unescape?_escape cs).symm.trans (h ▸ unescape?_escape ds))

end StringLiteral

end ProtoJson.Grammar
