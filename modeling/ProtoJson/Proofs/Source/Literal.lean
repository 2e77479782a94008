import ProtoJson.Proofs.Grammar.Escape
import ProtoJson.Source.Literal

/-!
# Byte-string literals

A byte-string literal is read as the language reads it: characters of ASCII that stand for
themselves, escapes, and line feeds that are left out together with the blanks after them. A literal
that is written for some bytes is read as those bytes, whatever follows it.
-/

namespace ProtoJson

open Grammar

/-! ## Reading -/

/-- The byte of an escape of two characters. -/
def byteMark? (mark : Char) : Option UInt8 :=
  if mark = 'n' then some (ascii '\n')
  else if mark = 'r' then some (ascii '\r')
  else if mark = 't' then some (ascii '\t')
  else if mark = '\\' then some (ascii '\\')
  else if mark = '0' then some 0
  else if mark = '\x27' then some 0x27
  else if mark = '"' then some (ascii '"')
  else none

/-- The bytes up to the quote that closes a literal, and what follows. `skips` says whether blanks
are left out, as they are after a line feed with a backslash in front. -/
def byteBody? (skips : Bool) : List Char → Option (List UInt8 × List Char)
  | '"' :: r => some ([], r)
  | '\\' :: '\n' :: r => byteBody? true r
  | '\\' :: 'x' :: d :: d' :: r =>
    (hexValue? d).bind fun n => (hexValue? d').bind fun n' =>
      (byteBody? false r).map fun (bytes, after) => (UInt8.ofNat (n * 16 + n') :: bytes, after)
  | '\\' :: mark :: r =>
    (byteMark? mark).bind fun b =>
      (byteBody? false r).map fun (bytes, after) => (b :: bytes, after)
  | ['\\'] => none
  | c :: r =>
    if skips ∧ c ∈ [' ', '\t', '\n', '\r'] then byteBody? true r
    else if c.toNat < 128 ∧ c ≠ '\r' then
      (byteBody? false r).map fun (bytes, after) => (ascii c :: bytes, after)
    else none
  | [] => none

/-- The bytes of a byte-string literal, and what follows the literal. -/
def readByteLiteral? : List Char → Option (List UInt8 × List Char)
  | 'b' :: '"' :: cs => byteBody? false cs
  | _ => none

/-- Whether a quote stands in a text without a backslash of its own in front. -/
def hasOpenQuote : List Char → Bool
  | '\\' :: _ :: cs => hasOpenQuote cs
  | '"' :: _ => true
  | _ :: cs => hasOpenQuote cs
  | [] => false

/-! ## Forms of bytes -/

/-- The character of a byte. -/
theorem char_of_byte (b : UInt8) :
    ascii (Char.ofNat b.toNat) = b ∧ (Char.ofNat b.toNat).toNat = b.toNat := by
  have key : ∀ n < 256, ascii (Char.ofNat n) = UInt8.ofNat n ∧ (Char.ofNat n).toNat = n := by
    decide +kernel
  have hb := key b.toNat b.toNat_lt
  rwa [UInt8.ofNat_toNat] at hb

theorem char_ne {b : UInt8} {c : Char} (h : b ≠ ascii c) : Char.ofNat b.toNat ≠ c := by
  intro heq
  rw [← heq, (char_of_byte b).1] at h
  exact h rfl

/-- A character that stands for itself. -/
theorem byteBody?_cons {c : Char} (hquote : c ≠ '"') (hslash : c ≠ '\\') (hreturn : c ≠ '\r')
    (hlt : c.toNat < 128) (cs : List Char) :
    byteBody? false (c :: cs)
      = (byteBody? false cs).map fun (bytes, after) => (ascii c :: bytes, after) := by
  rw [byteBody?.eq_def]
  split <;> simp_all

/-- The form of a byte is read as a whole. -/
theorem byteBody?_literalByte (b : UInt8) (cs : List Char) :
    byteBody? false (literalByte b ++ cs)
      = (byteBody? false cs).map fun (bytes, after) => (b :: bytes, after) := by
  unfold literalByte
  split_ifs with h₁ h₂ h₃
  · rw [h₁]
    rfl
  · rw [h₂]
    rfl
  · obtain ⟨hascii, hnat⟩ := char_of_byte b
    have hlow : 0x20 ≤ b.toNat := h₃.1
    have hhigh : b.toNat ≤ 0x7e := h₃.2
    have hreturn : Char.ofNat b.toNat ≠ '\r' := by
      intro heq
      rw [heq] at hnat
      rw [← hnat] at hlow
      exact absurd hlow (by decide)
    rw [List.singleton_append, byteBody?_cons (char_ne h₁) (char_ne h₂) hreturn (by omega), hascii]
  · have hhigh := (hexValue?_hexDigit (b.toNat / 16) (by have := b.toNat_lt; omega)).1
    have hlow := (hexValue?_hexDigit (b.toNat % 16) (Nat.mod_lt _ (by decide))).1
    rw [List.cons_append, List.cons_append, List.cons_append, List.cons_append, List.nil_append,
      byteBody?, hhigh, hlow, Option.bind_some, Option.bind_some, Nat.div_add_mod',
      UInt8.ofNat_toNat]

theorem hasOpenQuote_cons {c : Char} (hquote : c ≠ '"') (hslash : c ≠ '\\') (cs : List Char) :
    hasOpenQuote (c :: cs) = hasOpenQuote cs := by
  rw [hasOpenQuote.eq_def]
  split <;> simp_all

/-- No form has a quote of its own. -/
theorem hasOpenQuote_literalByte (b : UInt8) (cs : List Char) :
    hasOpenQuote (literalByte b ++ cs) = hasOpenQuote cs := by
  have key : ∀ n < 16, hexDigit n ≠ '"' ∧ hexDigit n ≠ '\\' := by decide
  unfold literalByte
  split_ifs with h₁ h₂ h₃
  · rfl
  · rfl
  · rw [List.singleton_append, hasOpenQuote_cons (char_ne h₁) (char_ne h₂)]
  · obtain ⟨hhigh, hhigh'⟩ := key (b.toNat / 16) (by have := b.toNat_lt; omega)
    obtain ⟨hlow, hlow'⟩ := key (b.toNat % 16) (Nat.mod_lt _ (by decide))
    rw [List.cons_append, List.cons_append, List.cons_append, List.cons_append, List.nil_append,
      hasOpenQuote, hasOpenQuote_cons hhigh hhigh', hasOpenQuote_cons hlow hlow']

/-- All characters of a form are printable. -/
theorem printable_of_mem_literalByte {b : UInt8} {c : Char} (h : c ∈ literalByte b) :
    0x20 ≤ c.toNat ∧ c.toNat ≤ 0x7e := by
  have key : ∀ n < 16, 0x20 ≤ (hexDigit n).toNat ∧ (hexDigit n).toNat ≤ 0x7e := by decide
  unfold literalByte at h
  split_ifs at h with h₁ h₂ h₃ <;>
    simp only [List.mem_cons, List.not_mem_nil, or_false] at h
  · rcases h with rfl | rfl <;> decide
  · rcases h with rfl | rfl <;> decide
  · rw [h, (char_of_byte b).2]
    exact h₃
  · rcases h with rfl | rfl | rfl | rfl
    · decide
    · decide
    · exact key _ (by have := b.toNat_lt; omega)
    · exact key _ (Nat.mod_lt _ (by decide))

/-! ## Literals -/

theorem toList_byteLiteral (bytes : List UInt8) :
    (byteLiteral bytes).toList = 'b' :: '"' :: (bytes.flatMap literalByte ++ ['"']) :=
  String.toList_ofList

theorem byteBody?_flatMap (bytes : List UInt8) (cs : List Char) :
    byteBody? false (bytes.flatMap literalByte ++ '"' :: cs) = some (bytes, cs) := by
  induction bytes with
  | nil => rfl
  | cons b bytes ih =>
    rw [List.flatMap_cons, List.append_assoc, byteBody?_literalByte, ih]
    rfl

/-- A literal is read as the bytes that it was written for, whatever follows it. -/
theorem readByteLiteral?_byteLiteral (bytes : List UInt8) (cs : List Char) :
    readByteLiteral? ((byteLiteral bytes).toList ++ cs) = some (bytes, cs) := by
  rw [toList_byteLiteral, List.cons_append, List.cons_append, List.append_assoc,
    List.singleton_append, readByteLiteral?, byteBody?_flatMap]

theorem hasOpenQuote_flatMap (bytes : List UInt8) :
    hasOpenQuote (bytes.flatMap literalByte) = false := by
  induction bytes with
  | nil => rfl
  | cons b bytes ih => rw [List.flatMap_cons, hasOpenQuote_literalByte, ih]

/-- All characters of a literal are printable ASCII. -/
theorem printable_of_mem_byteLiteral {bytes : List UInt8} {c : Char}
    (h : c ∈ (byteLiteral bytes).toList) : 0x20 ≤ c.toNat ∧ c.toNat ≤ 0x7e := by
  rw [toList_byteLiteral] at h
  simp only [List.mem_cons, List.mem_append, List.mem_flatMap, List.not_mem_nil, or_false] at h
  rcases h with rfl | rfl | ⟨b, -, h⟩ | rfl
  · decide
  · decide
  · exact printable_of_mem_literalByte h
  · decide

end ProtoJson
