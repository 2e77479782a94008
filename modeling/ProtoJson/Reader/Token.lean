import ProtoJson.Reader.Error

/-!
# Tokens

The lexical elements of JSON. Numbers are taken greedily and strings up to the closing quote; what
they hold is judged only when they are read as a value.
-/

namespace ProtoJson

/-- A token without its place. -/
inductive TokenKind where
  | symbol (byte : UInt8)
  | null
  | bool (b : Bool)
  | number (text : List Char)
  /-- The bytes between the quotes, and whether there is a backslash among them. -/
  | string (raw : List UInt8) (escaped : Bool)
  deriving DecidableEq, Repr

namespace TokenKind

/-- The class of a token. -/
def tokenClass : TokenKind → TokenClass
  | symbol byte => .symbol byte
  | null => .null
  | bool _ => .bool
  | number _ => .number
  | string _ _ => .string

/-- The brackets. -/
def isBracket (b : UInt8) : Bool :=
  b == ascii '{' || b == ascii '}' || b == ascii '[' || b == ascii ']'

/-- The bytes that a number token may hold. -/
def isNumberByte (b : UInt8) : Bool :=
  isDigitByte b || b == ascii '.' || b == ascii 'e' || b == ascii 'E' || b == ascii '+'
    || b == ascii '-'

/-- The bytes up to the closing quote, and whether there is a backslash among them. A backslash
takes the byte after it along. -/
def stringBody? : List UInt8 → Option (List UInt8 × Bool)
  | [] => none
  | b :: r =>
    if b = ascii '"' then some ([], false)
    else if b = ascii '\\' then
      match r with
      | [] => none
      | c :: r' => (stringBody? r').map fun (raw, _) => (b :: c :: raw, true)
    else (stringBody? r).map fun (raw, escaped) => (b :: raw, escaped)

/-- The keyword that the input must start with. -/
def keyword (word : String) (kind : TokenKind) (input : List UInt8) :
    Except Fault (TokenKind × Nat) :=
  let bytes := Utf8.ofString word
  if bytes.isPrefixOf input then .ok (kind, bytes.length) else .error .invalidLiteral

/-- The token at the front of the input, and its length. -/
def scan (input : List UInt8) : Except Fault (TokenKind × Nat) :=
  match input with
  | [] => .error .unexpectedEnd
  | b :: r =>
    if isBracket b then .ok (symbol b, 1)
    else if b = ascii '"' then
      match stringBody? r with
      | some (raw, escaped) => .ok (string raw escaped, raw.length + 2)
      | none => .error .unexpectedEnd
    else if b = ascii '-' ∨ isDigitByte b then
      let run := input.takeWhile isNumberByte
      .ok (number (run.map fun c => Char.ofNat c.toNat), run.length)
    else if b = ascii 't' then keyword "true" (bool true) input
    else if b = ascii 'f' then keyword "false" (bool false) input
    else if b = ascii 'n' then keyword "null" null input
    else .error (.unexpectedCharacter (Char.ofNat b.toNat))

end TokenKind

/-- A token, the offset of its first byte, and the input from there on. -/
structure Token where
  kind : TokenKind
  offset : Nat
  source : List UInt8
  deriving DecidableEq, Repr

/-- An error at a token. -/
def Token.error (t : Token) (fault : Fault) : SyntaxError := .locate t.offset t.source fault

end ProtoJson
