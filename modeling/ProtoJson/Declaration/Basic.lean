/-!
# Declarations

What schema files declare, as their authors wrote it: types refer to each other by name, and the
entry type behind every map field is still a message of its own. Members that a file leaves out
have the values given here.
-/

namespace ProtoJson

/-- How often a field occurs. -/
inductive Label where
  | optional
  | required
  | repeated
  deriving DecidableEq, Repr

/-- The types a field can be declared with. -/
inductive FieldType where
  | double
  | float
  | int64
  | uint64
  | int32
  | fixed64
  | fixed32
  | bool
  | string
  | group
  | message
  | bytes
  | uint32
  | enumeration
  | sfixed32
  | sfixed64
  | sint32
  | sint64
  deriving DecidableEq, Repr

/-- A field of a message. -/
structure FieldDecl where
  name : String := ""
  number : Int := 0
  label : Option Label := none
  type : Option FieldType := none
  /-- The message or enum that the field refers to, package included. -/
  typeName : Option String := none
  jsonName : Option String := none
  /-- The oneof that the field is declared in, as an index of `MessageDecl.oneofs`. -/
  oneofIndex : Option Int := none
  /-- Whether the oneof is there only to record whether the field is set. -/
  isOptional : Bool := false
  deriving DecidableEq, Repr

/-- A oneof of a message. -/
structure OneofDecl where
  name : String := ""
  deriving DecidableEq, Repr

/-- A value of an enum. -/
structure EnumValueDecl where
  name : String := ""
  number : Int := 0
  deriving DecidableEq, Repr

/-- An enum. -/
structure EnumDecl where
  name : String := ""
  values : List EnumValueDecl := []
  deriving DecidableEq, Repr

/-- A message, with the types that are declared inside it. -/
structure MessageDecl where
  name : String := ""
  fields : List FieldDecl := []
  messages : List MessageDecl := []
  enums : List EnumDecl := []
  oneofs : List OneofDecl := []
  /-- Whether the message is the entry type behind a map field. -/
  isMapEntry : Bool := false
  deriving Repr

/-- A schema file. -/
structure FileDecl where
  name : String := ""
  package : Option String := none
  messages : List MessageDecl := []
  enums : List EnumDecl := []
  deriving Repr

end ProtoJson
