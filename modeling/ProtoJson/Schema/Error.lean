/-!
# Errors of a schema

Why a set of files has no schema.
-/

namespace ProtoJson

/-- Shapes that a codec cannot express. -/
inductive ShapeFault where
  | groupField
  | untypedField
  | strayMapEntry
  | incompleteMapEntry
  | mapKey
  | oneofMember
  | emptyEnum
  deriving DecidableEq, Repr

/-- What a fault is called in messages. -/
def ShapeFault.message : ShapeFault → String
  | groupField => "group fields are not supported"
  | untypedField => "field has no type"
  | strayMapEntry => "map entry used outside a map field"
  | incompleteMapEntry => "map entry lacks a key or value field"
  | mapKey => "map keys must be integral, bool or string"
  | oneofMember => "oneof members cannot be lists or maps"
  | emptyEnum => "enums need at least one value"

/-- Why files have no schema. A `context` is the full name of a field or type. -/
inductive SchemaError where
  | unsupported (context : String) (fault : ShapeFault)
  /-- No file declares the type that a field refers to. -/
  | unresolved (typeName context : String)
  /-- Two items would get the same identifier or the same JSON name. -/
  | duplicate (name first second : String)
  deriving DecidableEq, Repr

/-- The text of an error. -/
def SchemaError.message : SchemaError → String
  | unsupported context fault => s!"unsupported schema shape in {context}: {fault.message}"
  | unresolved typeName context => s!"unresolved type {typeName} referenced by {context}"
  | duplicate name first second => s!"{name} would be generated for both {first} and {second}"

end ProtoJson
