import ProtoJson.Reader.Basic
import ProtoJson.Schema.Basic

/-!
# Reading scalars

Reads of single tokens as values of a given kind. A token of the right class whose content does not
convert is consumed, and the error stands at its first byte.
-/

namespace ProtoJson

/-- The text of a string token. Escapes are decoded on request. -/
def Token.text? (t : Token) (options : ReadOptions) (raw : List UInt8) (escaped : Bool) :
    Except SyntaxError String :=
  match Utf8.decode? raw with
  | none => .error (t.error .invalidUtf8)
  | some cs =>
    if escaped && options.decodeEscapes then
      match Escape.unescape? (some Utf8.replacement) cs with
      | some cs => .ok (String.ofList cs)
      | none => .error (t.error .invalidEscape)
    else .ok (String.ofList cs)

/-- The value of a number token as an integer. -/
def Token.integer? (t : Token) (kind : IntegerKind) (text : List Char) : Except SyntaxError Int :=
  match kind.parse? text with
  | some v => .ok v
  | none => .error (t.error (.invalidNumber (.integer kind)))

/-- The value of a number token in a binary format. -/
def Token.binary? (t : Token) (fmt : BinaryFormat) (text : List Char) :
    Except SyntaxError (Binary fmt) :=
  match Binary.parse? fmt text with
  | some v => .ok v
  | none => .error (t.error (.invalidNumber (.binary fmt)))

namespace TokenKind

/-- The value of a boolean token. -/
def bool? : TokenKind → Option Bool
  | bool b => some b
  | _ => none

/-- The text of a number token. -/
def number? : TokenKind → Option (List Char)
  | number text => some text
  | _ => none

/-- The content of a string token. -/
def string? : TokenKind → Option (List UInt8 × Bool)
  | string raw escaped => some (raw, escaped)
  | _ => none

/-- The content of a string or number token. -/
def enumValue? : TokenKind → Option ((List UInt8 × Bool) ⊕ List Char)
  | string raw escaped => some (.inl (raw, escaped))
  | number text => some (.inr text)
  | _ => none

end TokenKind

/-- An enum value as it is written: by name or by number. -/
inductive EnumReference where
  | name (s : String)
  | number (n : Int)
  deriving DecidableEq, Repr

namespace Reader

/-- Goes on with the token and value of a read. -/
def andThen {α β : Type} (r : Except SyntaxError α × Reader) (f : α → Except SyntaxError β) :
    Except SyntaxError β × Reader :=
  (r.1.bind f, r.2)

/-- Takes `null`. -/
def null (s : Reader) : Except SyntaxError Unit × Reader :=
  andThen (s.expect .null fun k => if k = .null then some () else none) fun _ => .ok ()

/-- Takes `true` or `false`. -/
def bool (s : Reader) : Except SyntaxError Bool × Reader :=
  andThen (s.expect .bool TokenKind.bool?) fun (_, b) => .ok b

/-- Takes a string. -/
def string (s : Reader) : Except SyntaxError String × Reader :=
  andThen (s.expect .string TokenKind.string?) fun (t, raw, escaped) =>
    t.text? s.options raw escaped

/-- Takes a string that stands for bytes: the raw bytes between the quotes, or what they encode in
base64. -/
def bytes (s : Reader) : Except SyntaxError (List UInt8) × Reader :=
  andThen (s.expect .string TokenKind.string?) fun (t, raw, _) =>
    if s.options.decodeBase64 then
      match Base64.decode? raw with
      | some bs => .ok bs
      | none => .error (t.error .invalidBase64)
    else .ok raw

/-- Takes a number as an integer. -/
def integer (s : Reader) (kind : IntegerKind) : Except SyntaxError Int × Reader :=
  andThen (s.expect .number TokenKind.number?) fun (t, text) => t.integer? kind text

/-- Takes a number in a binary format. -/
def binary (s : Reader) (fmt : BinaryFormat) : Except SyntaxError (Binary fmt) × Reader :=
  andThen (s.expect .number TokenKind.number?) fun (t, text) => t.binary? fmt text

/-- Takes an enum value in either form. Its number must fit 32 bits. -/
def enumReference (s : Reader) : Except SyntaxError EnumReference × Reader :=
  andThen (s.expect .enumValue TokenKind.enumValue?) fun
    | (t, .inl (raw, escaped)) => (t.text? s.options raw escaped).map .name
    | (t, .inr text) => (t.integer? .int32 text).map .number

/-- Takes a string as a map key. -/
def mapKey (s : Reader) (kind : KeyKind) : Except SyntaxError MapKey × Reader :=
  andThen (s.expect .string TokenKind.string?) fun (t, raw, escaped) =>
    (t.text? s.options raw escaped).bind fun text =>
      match MapKey.parse? kind text with
      | some key => .ok key
      | none => .error (t.error (.invalidMapKey kind))

/-- Takes a value of the enum `e`, by a declared name or a declared number. -/
def enumeration (s : Reader) (e : EnumType) : Except ReadError EnumValue × Reader :=
  match s.enumReference with
  | (.error err, s) => (.error (.malformed err), s)
  | (.ok (.name name), s) =>
    match e.ofName? name with
    | some v => (.ok v, s)
    | none => (.error (.unknownEnumValue e.fullName name), s)
  | (.ok (.number n), s) =>
    match e.ofNumber? n with
    | some v => (.ok v, s)
    | none => (.error (.unknownEnumValue e.fullName (String.ofList (decimalInt n))), s)

end Reader

end ProtoJson
