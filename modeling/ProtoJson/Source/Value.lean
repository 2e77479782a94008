import ProtoJson.Schema.Basic
import ProtoJson.Source.Options

/-!
# Values in generated source

The type that a value of each kind has in generated source, and the code that writes it, reads it
and gives it back to its pool.
-/

namespace ProtoJson

/-- What generated source is made from. -/
structure SourceContext where
  schema : Schema
  options : SourceOptions
  deriving Repr

/-- Where a value stands: behind a reference, or in a member of the message itself. -/
inductive Place where
  | borrowed (name : String)
  | member (access : String)
  deriving DecidableEq, Repr

/-- The value at a place. -/
def Place.value : Place → String
  | borrowed name => "*" ++ name
  | member access => access

/-- A reference to a place. -/
def Place.reference : Place → String
  | borrowed name => name
  | member access => "&" ++ access

namespace SourceContext

/-- The path of the runtime library. -/
def runtime (c : SourceContext) : String := c.options.runtimePath

/-- The type that holds the pools. -/
def pools (c : SourceContext) : String := c.options.poolsName

/-- The type of a value on its own. -/
def valueType (c : SourceContext) : Kind → String
  | .bool => "bool"
  | .integer .int32 => "i32"
  | .integer .int64 => "i64"
  | .integer .uint32 => "u32"
  | .integer .uint64 => "u64"
  | .float32 => "f32"
  | .float64 => "f64"
  | .string => "::std::string::String"
  | .bytes => "::std::vec::Vec<u8>"
  | .enumeration i => (c.schema.enums[i]?.map (·.typeName)).getD ""
  | .message i => (c.schema.messages[i]?.map (·.typeName)).getD ""

/-- The type of a map key. -/
def keyType (c : SourceContext) : KeyKind → String
  | .bool => c.valueType .bool
  | .integer kind => c.valueType (.integer kind)
  | .string => c.valueType .string

/-- The type of an element of a list, a value of a map or a member of a oneof. Messages stand in
boxes. -/
def elementType (c : SourceContext) (kind : Kind) : String :=
  if kind.isMessage then s!"::std::boxed::Box<{c.valueType kind}>" else c.valueType kind

/-- The type of a field. Only singular scalars have no state of being unset. -/
def fieldType (c : SourceContext) (f : Field) : String :=
  let element := c.elementType f.kind
  match f.cardinality with
  | .singular =>
    if f.kind = .bytes ∨ f.kind.isMessage then s!"::core::option::Option<{element}>" else element
  | .list => s!"::core::option::Option<::std::vec::Vec<{element}>>"
  | .map key =>
    s!"::core::option::Option<::std::collections::HashMap<{c.keyType key}, {element}>>"

/-- The codec of a message type. -/
def codec (c : SourceContext) (kind : Kind) : String :=
  s!"<{c.valueType kind} as {c.runtime}::Codec>"

/-- A statement that writes the value at a place. -/
def writeValue (c : SourceContext) (kind : Kind) (p : Place) : String :=
  match kind with
  | .bool => s!"buf.write_bool({p.value});"
  | .integer .int32 => s!"buf.write_int32({p.value});"
  | .integer .int64 => s!"buf.write_int64({p.value});"
  | .integer .uint32 => s!"buf.write_uint32({p.value});"
  | .integer .uint64 => s!"buf.write_uint64({p.value});"
  | .float32 => s!"buf.write_float32({p.value});"
  | .float64 => s!"buf.write_float64({p.value});"
  | .string => s!"buf.write_string_quoted({p.reference});"
  | .bytes => s!"buf.write_bytes({p.reference});"
  | .enumeration _ =>
    s!"buf.write_string_quoted({c.runtime}::Enumeration::as_str_name({p.reference}));"
  | .message _ => s!"{c.codec kind}::marshal_json({p.reference}, buf);"

/-- An expression that reads a value. -/
def readValue (c : SourceContext) (kind : Kind) : String :=
  match kind with
  | .bool => "p.bool()?"
  | .integer .int32 => "p.int32()?"
  | .integer .int64 => "p.int64()?"
  | .integer .uint32 => "p.uint32()?"
  | .integer .uint64 => "p.uint64()?"
  | .float32 => "p.float32()?"
  | .float64 => "p.float64()?"
  | .string => "p.str()?.into_owned()"
  | .bytes => "p.bytes()?.into_owned()"
  | .enumeration _ => s!"p.enumeration::<{c.valueType kind}>()?"
  | .message _ =>
    s!"\x7b let mut m = {c.valueType kind}::new_in(pools); " ++
      s!"{c.codec kind}::unmarshal_json(&mut m, p, pools)?; m \x7d"

/-- An expression that gives the message `value` back to its pool. -/
def recycle (c : SourceContext) (kind : Kind) (value : String) : String :=
  s!"{c.codec kind}::destruct({value}, pools)"

end SourceContext

end ProtoJson
