import ProtoJson.MapKey

/-!
# Schemas

The enums and messages of a set of schema files, with every reference resolved to an index.
`typeName`, `variant` and the names of oneofs are identifiers of the code that is generated for a
schema; the codec itself needs only the JSON names.
-/

namespace ProtoJson

/-- The kinds of a single value. -/
inductive Kind where
  | bool
  | integer (kind : IntegerKind)
  | float32
  | float64
  | string
  | bytes
  /-- An index of `Schema.enums`. -/
  | enumeration (index : Nat)
  /-- An index of `Schema.messages`. -/
  | message (index : Nat)
  deriving DecidableEq, Repr

/-- Whether values of the kind are messages. -/
def Kind.isMessage : Kind → Bool
  | message _ => true
  | _ => false

/-- How many values a field holds. -/
inductive Cardinality where
  | singular
  | list
  | map (key : KeyKind)
  deriving DecidableEq, Repr

/-- A field of a message. -/
structure Field where
  name : String
  jsonName : String
  /-- The kind of the elements of a list and of the values of a map. -/
  kind : Kind
  cardinality : Cardinality
  /-- The oneof that the field is a member of, as an index of `MessageType.oneofs`. -/
  oneof : Option Nat := none
  deriving DecidableEq, Repr

/-- A group of fields of which at most one is set. -/
structure Oneof where
  name : String
  typeName : String
  deriving DecidableEq, Repr

/-- A message type. -/
structure MessageType where
  /-- The name in the schema, package included. -/
  fullName : String
  typeName : String
  /-- In declaration order, members of oneofs included. -/
  fields : List Field
  oneofs : List Oneof
  deriving DecidableEq, Repr

/-- A name that an enum declares, and its number. -/
structure EnumValue where
  name : String
  number : Int
  variant : String
  deriving DecidableEq, Repr

/-- An enum type. -/
structure EnumType where
  /-- The name in the schema, package included. -/
  fullName : String
  typeName : String
  /-- In declaration order, aliases included. -/
  values : List EnumValue
  deriving DecidableEq, Repr

/-- Every type of a set of files. -/
structure Schema where
  sources : List String
  enums : List EnumType
  messages : List MessageType
  deriving DecidableEq, Repr

namespace MessageType

/-- The fields outside all oneofs. -/
def plainFields (m : MessageType) : List Field := m.fields.filter (·.oneof.isNone)

/-- The members of a oneof. -/
def members (m : MessageType) (index : Nat) : List Field := m.fields.filter (·.oneof = some index)

/-- Whether a field or a member of a oneof holds messages. -/
def hasMessages (m : MessageType) : Bool := m.fields.any (·.kind.isMessage)

/-- The field that a JSON key names. -/
def field? (m : MessageType) (key : String) : Option Field := m.fields.find? (·.jsonName == key)

end MessageType

namespace EnumType

/-- The value of a number: the first that is declared with it. The others are its aliases. -/
def ofNumber? (e : EnumType) (n : Int) : Option EnumValue := e.values.find? (·.number == n)

/-- The value of a number has the number. -/
theorem number_of_ofNumber? {e : EnumType} {number : Int} {v : EnumValue}
    (h : e.ofNumber? number = some v) : v.number = number := by
  rw [ofNumber?] at h
  have hv := List.find?_some h
  exact beq_iff_eq.1 hv

/-- The value of a declared name, which may be an alias. -/
def ofName? (e : EnumType) (name : String) : Option EnumValue :=
  (e.values.find? (·.name == name)).bind fun v => e.ofNumber? v.number

/-- The value of number zero, or else the first. -/
def default? (e : EnumType) : Option EnumValue := (e.ofNumber? 0).or e.values.head?

end EnumType

end ProtoJson
