import ProtoJson.Buffer
import ProtoJson.Number.Integer

/-!
# Map keys

Keys of map fields are strings, booleans or integers. In JSON they are always quoted.
-/

namespace ProtoJson

/-- The kinds of a map key. -/
inductive KeyKind where
  | string
  | bool
  | integer (kind : IntegerKind)
  deriving DecidableEq, Repr

/-- The name of a kind in messages. -/
def KeyKind.name : KeyKind → String
  | string => "string"
  | bool => "bool"
  | integer kind => kind.name

/-- A map key. -/
inductive MapKey where
  | string (s : String)
  | bool (b : Bool)
  | integer (v : Int)
  deriving DecidableEq, Repr

namespace MapKey

/-- Reads the text of a key. -/
def parse? : KeyKind → String → Option MapKey
  | .string, s => some (.string s)
  | .bool, s =>
    if s = "true" then some (.bool true) else if s = "false" then some (.bool false) else none
  | .integer kind, s => (kind.parse? s.toList).map .integer

/-- Appends a key in quotes. -/
def write (key : MapKey) (b : Buffer) : Buffer :=
  match key with
  | string s => b.writeQuoted s
  | bool v => ((b.writeByte (ascii '"')).writeBool v).writeByte (ascii '"')
  | integer v => ((b.writeByte (ascii '"')).writeInteger v).writeByte (ascii '"')

/-- Appends a key in quotes and a colon. -/
def writeMember (key : MapKey) (b : Buffer) : Buffer := (key.write b).writeByte (ascii ':')

/-- The order of keys of one kind: strings by their characters, integers by their value, `false`
before `true`. -/
def before : MapKey → MapKey → Bool
  | string a, string b => a < b
  | integer a, integer b => a < b
  | bool a, bool b => !a && b
  | _, _ => false

end MapKey

end ProtoJson
