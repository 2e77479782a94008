import ProtoJson.Schema.Basic

/-!
# The example schema

A schema that uses every kind and cardinality: messages within messages, lists and maps of them, a
oneof with a message member, and a message that holds itself.
-/

namespace ProtoJson.Example

/-- The messages of the schema, in order. -/
inductive MessageName where
  | msg
  | exampleMsg
  | nestedMsg
  | simple
  | empty
  | node
  deriving DecidableEq, Repr

/-- The index of a message. -/
def MessageName.index : MessageName → Nat
  | msg => 0
  | exampleMsg => 1
  | nestedMsg => 2
  | simple => 3
  | empty => 4
  | node => 5

/-- `example.Typ`. -/
def typ : EnumType :=
  { fullName := "example.Typ"
    typeName := "Typ"
    values := [⟨"TYPA", 0, "Typa"⟩, ⟨"TYPB", 1, "Typb"⟩, ⟨"TYPC", 2, "Typc"⟩] }

/-- `example.Tag`. -/
def tag : EnumType :=
  { fullName := "example.Tag"
    typeName := "Tag"
    values := [⟨"A", 0, "A"⟩, ⟨"B", 1, "B"⟩] }

/-- `example.Example.NestedTyp`. -/
def nestedTyp : EnumType :=
  { fullName := "example.Example.NestedTyp"
    typeName := "ExampleNestedTyp"
    values := [⟨"NESTED_TYPA", 0, "NestedTypa"⟩, ⟨"NESTED_TYPB", 1, "NestedTypb"⟩,
      ⟨"NESTED_TYPC", 2, "NestedTypc"⟩] }

/-- A singular field outside all oneofs. -/
def singular (name jsonName : String) (kind : Kind) : Field :=
  { name, jsonName, kind, cardinality := .singular }

/-- `example.Msg`. -/
def msg : MessageType :=
  { fullName := "example.Msg"
    typeName := "Msg"
    fields := [
      singular "bol" "bol" .bool,
      singular "str" "str" .string,
      singular "in32" "in32" (.integer .int32),
      singular "in64" "in64" (.integer .int64),
      singular "uin32" "uin32" (.integer .uint32),
      singular "uin64" "uin64" (.integer .uint64),
      singular "flt32" "flt32" .float32,
      singular "flt64" "flt64" .float64,
      singular "byts" "byts" .bytes,
      singular "type" "type" .string]
    oneofs := [] }

/-- `example.Example`. -/
def exampleMsg : MessageType :=
  { fullName := "example.Example"
    typeName := "Example"
    fields := [
      singular "bol" "bol" .bool,
      singular "str" "str" .string,
      singular "in32" "in32" (.integer .int32),
      singular "in64" "in64" (.integer .int64),
      singular "uin32" "uin32" (.integer .uint32),
      singular "uin64" "uin64" (.integer .uint64),
      singular "flt32" "flt32" .float32,
      singular "flt64" "flt64" .float64,
      singular "byts" "byts" .bytes,
      singular "typ" "typ" (.enumeration 0),
      singular "nested_typ" "nestedTyp" (.enumeration 2),
      singular "msg" "msg" (.message 0),
      singular "nested_msg" "nestedMsg" (.message 2),
      ⟨"str_arr", "strArr", .string, .list, none⟩,
      ⟨"typ_arr", "typArr", .enumeration 0, .list, none⟩,
      ⟨"msg_arr", "msgArr", .message 0, .list, none⟩,
      ⟨"string_map", "stringMap", .string, .map .string, none⟩,
      ⟨"msg_map", "msgMap", .message 0, .map (.integer .int32), none⟩,
      singular "s64" "s64" (.integer .int64),
      singular "sf32" "sf32" (.integer .int32),
      singular "fix64" "fix64" (.integer .uint64),
      singular "note" "note" .string,
      ⟨"oneof_bol", "oneofBol", .bool, .singular, some 0⟩,
      ⟨"oneof_msg", "oneofMsg", .message 0, .singular, some 0⟩,
      ⟨"oneof_str", "oneofStr", .string, .singular, some 0⟩]
    oneofs := [⟨"test_oneof", "ExampleTestOneof"⟩] }

/-- `example.Example.NestedMsg`. -/
def nestedMsg : MessageType :=
  { fullName := "example.Example.NestedMsg"
    typeName := "ExampleNestedMsg"
    fields := [singular "str" "str" .string]
    oneofs := [] }

/-- `example.Simple`. -/
def simple : MessageType :=
  { fullName := "example.Simple"
    typeName := "Simple"
    fields := [
      singular "str" "str" .string,
      ⟨"nums", "nums", .integer .int32, .list, none⟩,
      singular "tag" "tag" (.enumeration 1)]
    oneofs := [] }

/-- `example.Empty`. -/
def empty : MessageType :=
  { fullName := "example.Empty", typeName := "Empty", fields := [], oneofs := [] }

/-- `example.Node`. -/
def node : MessageType :=
  { fullName := "example.Node"
    typeName := "Node"
    fields := [
      singular "value" "value" (.integer .int32),
      singular "child" "child" (.message 5)]
    oneofs := [] }

/-- The schema. -/
def schema : Schema :=
  { sources := ["example.proto"]
    enums := [typ, tag, nestedTyp]
    messages := [msg, exampleMsg, nestedMsg, simple, empty, node] }

end ProtoJson.Example
