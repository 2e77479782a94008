import ProtoJson.MapKey
import ProtoJson.Text.Quoted
import ProtoJson.Text.Utf8

/-!
# Reading errors

What can be wrong with a JSON text, and how it is reported.
-/

namespace ProtoJson

/-- The number kinds of a schema. -/
inductive NumberKind where
  | integer (kind : IntegerKind)
  | binary (format : BinaryFormat)
  deriving DecidableEq, Repr

/-- The name of a kind in messages. -/
def NumberKind.name : NumberKind → String
  | integer kind => kind.name
  | binary format => "float" ++ toString format.width

/-- The classes of tokens that a read may expect or find. -/
inductive TokenClass where
  | symbol (byte : UInt8)
  | null
  | bool
  | string
  | number
  /-- The name of an enum value or its number. -/
  | enumValue
  /-- Anything a value can start with. -/
  | value
  deriving DecidableEq, Repr

/-- How a class is called in messages. -/
def TokenClass.describe : TokenClass → String
  | symbol byte =>
    if [ascii '{', ascii '}', ascii '[', ascii ']', ascii ',', ascii ':'].contains byte then
      String.ofList ['\'', Char.ofNat byte.toNat, '\'']
    else "symbol"
  | null => "null"
  | bool => "bool"
  | string => "string"
  | number => "number"
  | enumValue => "enum name or number"
  | value => "value"

/-- The ways in which a text can be malformed or not what is asked for. Offending bytes are shown as
the characters of the same number. -/
inductive Fault where
  | unexpectedCharacter (c : Char)
  | missingSeparator (expected found : Char)
  | invalidLiteral
  | unexpectedToken (expected found : TokenClass)
  | invalidNumber (kind : NumberKind)
  | invalidMapKey (kind : KeyKind)
  | invalidUtf8
  | invalidEscape
  | invalidBase64
  | unexpectedEnd
  | tooDeep (limit : Nat)
  deriving DecidableEq, Repr

/-- The account of a fault. -/
def Fault.message : Fault → String
  | unexpectedCharacter c => "unexpected character '" ++ c.toString ++ "'"
  | missingSeparator expected found =>
    "expected '" ++ expected.toString ++ "' before '" ++ found.toString ++ "'"
  | invalidLiteral => "invalid literal"
  | unexpectedToken expected found =>
    "expected " ++ expected.describe ++ ", found " ++ found.describe
  | invalidNumber kind => "invalid " ++ kind.name ++ " number"
  | invalidMapKey kind => "invalid " ++ kind.name ++ " map key"
  | invalidUtf8 => "invalid UTF-8 in string"
  | invalidEscape => "invalid escape sequence"
  | invalidBase64 => "invalid base64 payload"
  | unexpectedEnd => "unexpected end of input"
  | tooDeep limit => "nesting deeper than " ++ toString limit ++ " levels"

/-- A fault, where it was found, and the text that stands there. -/
structure SyntaxError where
  fault : Fault
  offset : Nat
  near : String
  deriving DecidableEq, Repr

namespace SyntaxError

/-- So many bytes of the input are quoted. -/
def nearLength : Nat := 32

/-- A fault at `offset`, where `source` is the input from there on. -/
def locate (offset : Nat) (source : List UInt8) (fault : Fault) : SyntaxError :=
  { fault, offset, near := String.ofList (Utf8.lossy (source.take nearLength)) }

/-- The report of an error. -/
def message (e : SyntaxError) : String :=
  "syntax error: " ++ e.fault.message ++ " near offset " ++ toString e.offset ++ " "
    ++ quoted e.near

end SyntaxError

/-- The ways in which a read can fail. -/
inductive ReadError where
  | malformed (e : SyntaxError)
  | unknownEnumValue (enumName value : String)
  deriving DecidableEq, Repr

/-- The report of an error. -/
def ReadError.message : ReadError → String
  | malformed e => e.message
  | unknownEnumValue enumName value =>
    "unknown value " ++ value ++ " for enum " ++ enumName

end ProtoJson
