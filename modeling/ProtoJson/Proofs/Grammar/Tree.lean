import ProtoJson.Proofs.Grammar.Token

/-!
# JSON texts as trees

A tree holds everything that a JSON text holds, blanks included, so a text is well-formed exactly if
it is the text of a tree. Over numbers and strings that are spelled as the standard demands these
are the texts of RFC 8259; over any tokens they are the texts whose separators and brackets are in
order.
-/

namespace ProtoJson.Grammar

mutual

/-- A JSON value without the blanks around it. -/
inductive Tree (ν σ : Type) where
  | null
  | bool (b : Bool)
  | number (n : ν)
  | string (s : σ)
  /-- The blanks stand after the opening bracket. -/
  | array (pad : Blanks) (items : Items ν σ)
  /-- The blanks stand after the opening bracket. -/
  | object (pad : Blanks) (members : Members ν σ)

/-- The items of an array, each with the blanks around it. -/
inductive Items (ν σ : Type) where
  | nil
  | cons (before : Blanks) (value : Tree ν σ) (after : Blanks) (rest : Items ν σ)

/-- The members of an object, each with the blanks around its parts. -/
inductive Members (ν σ : Type) where
  | nil
  | cons (before : Blanks) (key : σ) (afterKey beforeValue : Blanks) (value : Tree ν σ)
      (after : Blanks) (rest : Members ν σ)

end

variable {ν σ : Type} [Numeral ν] [Quotation σ]

/-- What separates an item from the one before it. The first has none before it. -/
def leadingComma (first : Bool) : List UInt8 := if first then [] else [ascii ',']

mutual

/-- The text of a value. -/
def Tree.bytes : Tree ν σ → List UInt8
  | .null => Utf8.ofString "null"
  | .bool true => Utf8.ofString "true"
  | .bool false => Utf8.ofString "false"
  | .number n => Numeral.bytes n
  | .string s => Quotation.bytes s
  | .array pad items => ascii '[' :: (pad.bytes ++ items.bytes true ++ [ascii ']'])
  | .object pad members => ascii '{' :: (pad.bytes ++ members.bytes true ++ [ascii '}'])

/-- The text of the items. A comma stands in front of each but the first. -/
def Items.bytes (first : Bool) : Items ν σ → List UInt8
  | .nil => []
  | .cons before v after rest =>
    leadingComma first ++ before.bytes ++ v.bytes ++ after.bytes ++ rest.bytes false

/-- The text of the members. A comma stands in front of each but the first. -/
def Members.bytes (first : Bool) : Members ν σ → List UInt8
  | .nil => []
  | .cons before key afterKey beforeValue v after rest =>
    leadingComma first ++ before.bytes ++ Quotation.bytes key ++ afterKey.bytes ++ ascii ':' ::
      (beforeValue.bytes ++ v.bytes ++ after.bytes ++ rest.bytes false)

end

theorem Items.bytes_cons_append (first : Bool) (before : Blanks) (v : Tree ν σ) (after : Blanks)
    (rest : Items ν σ) (r : List UInt8) :
    (Items.cons before v after rest).bytes first ++ r
      = leadingComma first ++
        (before.bytes ++ (v.bytes ++ (after.bytes ++ (rest.bytes false ++ r)))) := by
  simp [Items.bytes]

theorem Members.bytes_cons_append (first : Bool) (before : Blanks) (key : σ)
    (afterKey beforeValue : Blanks) (v : Tree ν σ) (after : Blanks) (rest : Members ν σ)
    (r : List UInt8) :
    (Members.cons before key afterKey beforeValue v after rest).bytes first ++ r
      = leadingComma first ++ (before.bytes ++ (Quotation.bytes key ++ (afterKey.bytes ++
        ascii ':' :: (beforeValue.bytes ++ (v.bytes ++ (after.bytes ++
          (rest.bytes false ++ r))))))) := by
  simp [Members.bytes]

/-! ## The first token -/

/-- The token that a value begins with. -/
def Tree.head : Tree ν σ → TokenKind
  | .null => .null
  | .bool b => .bool b
  | .number n => .number (numberChars (Numeral.bytes n))
  | .string s => .string (Quotation.raw s) ((Quotation.raw s).contains (ascii '\\'))
  | .array _ _ => .symbol (ascii '[')
  | .object _ _ => .symbol (ascii '{')

/-- The text after the first token. -/
def Tree.tail : Tree ν σ → List UInt8
  | .null | .bool _ | .number _ | .string _ => []
  | .array pad items => pad.bytes ++ items.bytes true ++ [ascii ']']
  | .object pad members => pad.bytes ++ members.bytes true ++ [ascii '}']

theorem Tree.tail_array (pad : Blanks) (items : Items ν σ) (r : List UInt8) :
    (Tree.array pad items).tail ++ r = pad.bytes ++ (items.bytes true ++ ascii ']' :: r) := by
  simp [Tree.tail]

theorem Tree.tail_object (pad : Blanks) (members : Members ν σ) (r : List UInt8) :
    (Tree.object pad members).tail ++ r
      = pad.bytes ++ (members.bytes true ++ ascii '}' :: r) := by
  simp [Tree.tail]

/-- A byte that can begin a token which is no closing bracket. -/
structure StartsToken (b : UInt8) : Prop where
  blank : isBlank b = false
  comma : b ≠ ascii ','
  colon : b ≠ ascii ':'
  brace : b ≠ ascii '}'
  bracket : b ≠ ascii ']'

instance (b : UInt8) : Decidable (StartsToken b) :=
  decidable_of_iff
    (isBlank b = false ∧ b ≠ ascii ',' ∧ b ≠ ascii ':' ∧ b ≠ ascii '}' ∧ b ≠ ascii ']')
    ⟨fun ⟨h₁, h₂, h₃, h₄, h₅⟩ => ⟨h₁, h₂, h₃, h₄, h₅⟩,
      fun h => ⟨h.blank, h.comma, h.colon, h.brace, h.bracket⟩⟩

theorem startsToken_of_digit (b : UInt8) (hb : b = ascii '-' ∨ isDigitByte b = true) :
    StartsToken b := by
  revert b
  exact forall_byte (by decide +kernel)

/-- A value begins with a byte that begins a token. -/
theorem Tree.exists_bytes_eq_cons (t : Tree ν σ) : ∃ b x, t.bytes = b :: x ∧ StartsToken b := by
  cases t with
  | null => exact ⟨_, _, rfl, by decide⟩
  | bool b => cases b <;> exact ⟨_, _, rfl, by decide⟩
  | number n =>
    obtain ⟨b, r, hb, hs⟩ := (Numeral.isRun n).starts
    exact ⟨b, r, hb, startsToken_of_digit b hs⟩
  | string s => exact ⟨_, _, rfl, by decide⟩
  | array pad items => exact ⟨_, _, rfl, by decide⟩
  | object pad members => exact ⟨_, _, rfl, by decide⟩

/-! ## Single values -/

namespace Tree

/-- The boolean that a value is. -/
def bool? : Tree ν σ → Option Bool
  | .bool b => some b
  | _ => none

/-- The number that a value is. -/
def number? : Tree ν σ → Option ν
  | .number n => some n
  | _ => none

/-- The string that a value is. -/
def string? : Tree ν σ → Option σ
  | .string s => some s
  | _ => none

/-- The enum value that a value writes, by name or by number. -/
def enumReference? (decodeEscapes : Bool) : Tree ν σ → Option EnumReference
  | .string s => (Quotation.text? decodeEscapes s).map .name
  | .number n => (Numeral.integer? .int32 n).map .number
  | _ => none

end Tree

/-- The value of an enum that is meant. -/
def resolve? (e : EnumType) : EnumReference → Option EnumValue
  | .name name => e.ofName? name
  | .number n => e.ofNumber? n

end ProtoJson.Grammar
