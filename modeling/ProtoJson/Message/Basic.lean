import ProtoJson.Schema.Basic

/-!
# Messages

The contents of a message, field by field, in the order of its type. Every singular field outside a
oneof holds a value; bytes, messages, lists and maps can be absent, which differs from empty.
-/

namespace ProtoJson

mutual

/-- A single value. -/
inductive Datum where
  | bool (b : Bool)
  | integer (v : Int)
  | float32 (x : Binary32)
  | float64 (x : Binary64)
  | string (s : String)
  | bytes (bs : List UInt8)
  | enumeration (number : Int)
  | message (m : Message)

/-- What a field outside all oneofs holds. -/
inductive Content where
  | absent
  | single (d : Datum)
  | list (ds : List Datum)
  /-- The entries are in ascending order of their keys. -/
  | map (entries : List (MapKey × Datum))

/-- What a oneof holds: nothing, or the value of one of its members. -/
inductive Choice where
  | unset
  | member (index : Nat) (d : Datum)

/-- A message: what each of its plain fields holds, and each of its oneofs. -/
inductive Message where
  | mk (plain : List Content) (choices : List Choice)

end

instance : Inhabited Message := ⟨.mk [] []⟩

namespace Message

/-- The contents of the plain fields. -/
def plain : Message → List Content
  | mk plain _ => plain

/-- The contents of the oneofs. -/
def choices : Message → List Choice
  | mk _ choices => choices

/-- The message with one plain field changed. -/
def setPlain (m : Message) (index : Nat) (c : Content) : Message :=
  mk (m.plain.set index c) m.choices

/-- The message with one oneof changed. -/
def setChoice (m : Message) (index : Nat) (c : Choice) : Message :=
  mk m.plain (m.choices.set index c)

end Message

namespace Schema

/-- The message type of an index. -/
def messageType (schema : Schema) (index : Nat) : MessageType :=
  (schema.messages[index]?).getD ⟨"", "", [], []⟩

/-- The enum of an index. -/
def enumType (schema : Schema) (index : Nat) : EnumType :=
  (schema.enums[index]?).getD ⟨"", "", []⟩

/-- What a field of a kind holds before it is set. -/
def zero (schema : Schema) : Kind → Content
  | .bool => .single (.bool false)
  | .integer _ => .single (.integer 0)
  | .float32 => .single (.float32 .zero)
  | .float64 => .single (.float64 .zero)
  | .string => .single (.string "")
  | .enumeration i =>
    .single (.enumeration (((schema.enumType i).default?.map (·.number)).getD 0))
  | .bytes | .message _ => .absent

/-- What a field holds before it is set. -/
def initial (schema : Schema) (f : Field) : Content :=
  match f.cardinality with
  | .singular => schema.zero f.kind
  | .list | .map _ => .absent

/-- A message with no field set. -/
def emptyMessage (schema : Schema) (index : Nat) : Message :=
  let type := schema.messageType index
  .mk (type.plainFields.map schema.initial) (type.oneofs.map fun _ => .unset)

end Schema

/-- Whether a field that holds this is left out of the JSON text: zero numbers of either sign,
`false`, the empty string and number zero of an enum, and what is absent. -/
def Content.isEmpty : Content → Bool
  | absent => true
  | single (.bool b) => !b
  | single (.integer v) => v == 0
  | single (.float32 x) => x.isZero
  | single (.float64 x) => x.isZero
  | single (.string s) => s.isEmpty
  | single (.enumeration number) => number == 0
  | single (.bytes _) | single (.message _) | list _ | map _ => false

/-- The entries with `key` standing for `d`, in ascending order of the keys, and the value that it
stood for before. -/
def insertEntry (key : MapKey) (d : Datum) :
    List (MapKey × Datum) → List (MapKey × Datum) × Option Datum
  | [] => ([(key, d)], none)
  | (k, old) :: rest =>
    if key.before k then ((key, d) :: (k, old) :: rest, none)
    else if key = k then ((key, d) :: rest, some old)
    else
      let (rest', replaced) := insertEntry key d rest
      ((k, old) :: rest', replaced)

end ProtoJson
