import Mathlib.Data.List.TakeWhile
import ProtoJson.Reader.Scalar

/-!
# Spellings of tokens

What the tokens of a JSON text look like, apart from any reader: blanks, number tokens and string
tokens. A grammar of JSON texts can be strict or lenient in its numbers and strings, so the trees of
`Grammar.Tree` are built over any type of numbers (`Numeral`) and any type of strings
(`Quotation`). Such a type says how its members are spelled and what they convert to; its laws tie
both to the bytes.
-/

namespace ProtoJson.Grammar

/-- What holds of each of the 256 bytes holds of every byte. -/
theorem forall_byte {p : UInt8 → Prop} (h : ∀ i : Fin 256, p (UInt8.ofFin i)) (b : UInt8) :
    p b := by
  simpa using h b.toFin

/-! ## Blanks -/

/-- A run of blanks, which may be empty. -/
structure Blanks where
  bytes : List UInt8
  blank : ∀ b ∈ bytes, isBlank b = true

namespace Blanks

/-- No blanks. -/
def empty : Blanks := ⟨[], by simp⟩

@[simp] theorem bytes_empty : empty.bytes = [] := rfl

/-- The blanks at the front of a text. -/
def front (bytes : List UInt8) : Blanks :=
  ⟨bytes.takeWhile isBlank, fun _ hb => List.mem_takeWhile_imp hb⟩

instance : Append Blanks where
  append v w := ⟨v.bytes ++ w.bytes, fun b hb =>
    (List.mem_append.1 hb).elim (v.blank b) (w.blank b)⟩

@[simp] theorem bytes_append (v w : Blanks) : (v ++ w).bytes = v.bytes ++ w.bytes := rfl

/-- Blanks end where a byte that is no blank stands. -/
theorem takeWhile_append (w : Blanks) {b : UInt8} (r : List UInt8) (hb : isBlank b = false) :
    (w.bytes ++ b :: r).takeWhile isBlank = w.bytes := by
  rw [List.takeWhile_append_of_pos w.blank, List.takeWhile_cons_of_neg (by simp [hb]),
    List.append_nil]

/-- The first byte after blanks. -/
theorem find?_append (w : Blanks) {b : UInt8} (r : List UInt8) (hb : isBlank b = false) :
    (w.bytes ++ b :: r).find? (fun b => !isBlank b) = some b := by
  rw [List.find?_append, List.find?_eq_none.2 (fun a ha => by simp [w.blank a ha]),
    List.find?_cons_of_pos (by simp [hb])]
  rfl

end Blanks

/-! ## Number tokens -/

/-- A number token: digits and the marks of a number, of which the first is a minus or a digit. -/
structure IsNumberRun (run : List UInt8) : Prop where
  starts : ∃ b r, run = b :: r ∧ (b = ascii '-' ∨ isDigitByte b = true)
  number : ∀ b ∈ run, TokenKind.isNumberByte b = true

/-- The characters of a number token. -/
def numberChars (run : List UInt8) : List Char := run.map fun b => Char.ofNat b.toNat

/-- A type of numbers: how they are spelled and what they convert to. -/
class Numeral (ν : Type) where
  bytes : ν → List UInt8
  integer? : IntegerKind → ν → Option Int
  binary? : (fmt : BinaryFormat) → ν → Option (Binary fmt)
  isRun : ∀ n, IsNumberRun (bytes n)
  integer?_eq : ∀ kind n, integer? kind n = kind.parse? (numberChars (bytes n))
  binary?_eq : ∀ fmt n, binary? fmt n = Binary.parse? fmt (numberChars (bytes n))

/-- Any number token, whatever it converts to. -/
structure NumberToken where
  run : List UInt8
  isRun : IsNumberRun run

instance : Numeral NumberToken where
  bytes n := n.run
  integer? kind n := kind.parse? (numberChars n.run)
  binary? fmt n := Binary.parse? fmt (numberChars n.run)
  isRun n := n.isRun
  integer?_eq _ _ := rfl
  binary?_eq _ _ := rfl

/-! ## String tokens -/

/-- What may stand between the quotes of a string token: a backslash takes the byte after it along,
and there is no quote but those taken. -/
def isStringBody : List UInt8 → Bool
  | [] => true
  | b :: r =>
    if b = ascii '"' then false
    else if b = ascii '\\' then
      match r with
      | [] => false
      | _ :: r' => isStringBody r'
    else isStringBody r

/-- The text between quotes, with escapes decoded on request. -/
def rawText? (decodeEscapes : Bool) (raw : List UInt8) : Option String :=
  (Utf8.decode? raw).bind fun cs =>
    if raw.contains (ascii '\\') && decodeEscapes then
      (Escape.unescape? (some Utf8.replacement) cs).map String.ofList
    else some (String.ofList cs)

/-- A type of strings: what stands between the quotes and what text that is, with escapes decoded or
not. -/
class Quotation (σ : Type) where
  raw : σ → List UInt8
  text? : (decodeEscapes : Bool) → σ → Option String
  isBody : ∀ s, isStringBody (raw s) = true
  text?_eq : ∀ decodeEscapes s, text? decodeEscapes s = rawText? decodeEscapes (raw s)

/-- Any string token, whatever it holds. -/
structure StringToken where
  raw : List UInt8
  isBody : isStringBody raw = true

instance : Quotation StringToken where
  raw s := s.raw
  text? decodeEscapes s := rawText? decodeEscapes s.raw
  isBody s := s.isBody
  text?_eq _ _ := rfl

namespace Quotation

variable {σ : Type} [Quotation σ]

/-- A string with its quotes. -/
def bytes (s : σ) : List UInt8 := ascii '"' :: (raw s ++ [ascii '"'])

/-- The bytes that a string stands for: those between the quotes, or what they encode in base64. -/
def bytes? (decodeBase64 : Bool) (s : σ) : Option (List UInt8) :=
  if decodeBase64 then Base64.decode? (raw s) else some (raw s)

/-- The map key that a string stands for. -/
def key? (decodeEscapes : Bool) (kind : KeyKind) (s : σ) : Option MapKey :=
  (text? decodeEscapes s).bind (MapKey.parse? kind)

end Quotation

end ProtoJson.Grammar
