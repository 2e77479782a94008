import ProtoJson.MapKey

/-!
# JSON values

The value of a JSON text whose schema is unknown. Numbers are 64-bit floats and the members of an
object are kept in ascending order of their keys.
-/

namespace ProtoJson

/-- A JSON value. -/
inductive Value where
  | null
  | bool (b : Bool)
  | number (x : Binary64)
  | string (s : String)
  | array (items : List Value)
  | object (members : List (String × Value))
  deriving Repr, Inhabited

namespace Value

/-- The members with `key` standing for `v`, in ascending order of the keys. A member of that key is
replaced. -/
def insertMember (key : String) (v : Value) : List (String × Value) → List (String × Value)
  | [] => [(key, v)]
  | (k, w) :: rest =>
    if key < k then (key, v) :: (k, w) :: rest
    else if key = k then (key, v) :: rest
    else (k, w) :: insertMember key v rest

/-- The members that pairs of keys and values make in turn, the last of each key winning. -/
def membersOfList (pairs : List (String × Value)) : List (String × Value) :=
  pairs.foldl (fun members (key, v) => insertMember key v members) []

/-- The member of an object. -/
def get? (key : String) : Value → Option Value
  | object members => (members.find? (·.1 == key)).map (·.2)
  | _ => none

mutual

/-- Appends the JSON text of a value, without blanks. -/
def write : Value → Buffer → Buffer
  | null, b => b.writeRaw "null"
  | bool v, b => b.writeBool v
  | number x, b => b.writeBinary x
  | string s, b => b.writeQuoted s
  | array items, b => (writeItems items (b.writeByte (ascii '['))).dropComma.writeByte (ascii ']')
  | object members, b =>
    (writeMembers members (b.writeByte (ascii '{'))).dropComma.writeByte (ascii '}')

/-- Appends each item and a comma. -/
def writeItems : List Value → Buffer → Buffer
  | [], b => b
  | v :: vs, b => writeItems vs ((write v b).writeByte (ascii ','))

/-- Appends each member and a comma. -/
def writeMembers : List (String × Value) → Buffer → Buffer
  | [], b => b
  | (key, v) :: ms, b =>
    writeMembers ms ((write v ((MapKey.string key).writeMember b)).writeByte (ascii ','))

end

/-- The JSON text of a value. -/
def bytes (v : Value) : List UInt8 := (v.write .empty).toList

end Value

end ProtoJson
