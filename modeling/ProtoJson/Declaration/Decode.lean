import ProtoJson.Declaration.Basic
import ProtoJson.Document.Decode

/-!
# Decoding declarations

The JSON form of declarations: the members of each record, in order, with their JSON names.
-/

namespace ProtoJson

open Document

/-- The labels with their names and numbers. -/
def Label.table : List (String × Int × Label) :=
  [("LABEL_OPTIONAL", 1, .optional), ("LABEL_REQUIRED", 2, .required),
    ("LABEL_REPEATED", 3, .repeated)]

/-- The field types with their names and numbers. -/
def FieldType.table : List (String × Int × FieldType) :=
  [("TYPE_DOUBLE", 1, .double), ("TYPE_FLOAT", 2, .float), ("TYPE_INT64", 3, .int64),
    ("TYPE_UINT64", 4, .uint64), ("TYPE_INT32", 5, .int32), ("TYPE_FIXED64", 6, .fixed64),
    ("TYPE_FIXED32", 7, .fixed32), ("TYPE_BOOL", 8, .bool), ("TYPE_STRING", 9, .string),
    ("TYPE_GROUP", 10, .group), ("TYPE_MESSAGE", 11, .message), ("TYPE_BYTES", 12, .bytes),
    ("TYPE_UINT32", 13, .uint32), ("TYPE_ENUM", 14, .enumeration),
    ("TYPE_SFIXED32", 15, .sfixed32), ("TYPE_SFIXED64", 16, .sfixed64),
    ("TYPE_SINT32", 17, .sint32), ("TYPE_SINT64", 18, .sint64)]

/-- Reads a label. -/
def Label.decode : Nat → Decoder Label := asNamed Label.table .unknownLabel

/-- Reads a field type. -/
def FieldType.decode : Nat → Decoder FieldType := asNamed FieldType.table .unknownFieldType

/-- The members of a field. -/
def FieldDecl.members (depth : Nat) : List (RecordMember FieldDecl) :=
  [.of "name" asString fun f v => { f with name := v },
    .of "number" asInt32 fun f v => { f with number := v },
    .of "label" (asOptional (Label.decode depth)) fun f v => { f with label := v },
    .of "type" (asOptional (FieldType.decode depth)) fun f v => { f with type := v },
    .of "typeName" (asOptional asString) fun f v => { f with typeName := v },
    .of "jsonName" (asOptional asString) fun f v => { f with jsonName := v },
    .of "oneofIndex" (asOptional asInt32) fun f v => { f with oneofIndex := v },
    .of "proto3Optional" asBool fun f v => { f with isOptional := v }]

/-- Reads a field. -/
def FieldDecl.decode : Nat → Decoder FieldDecl := asRecord FieldDecl.members {}

/-- The members of a oneof. -/
def OneofDecl.members : List (RecordMember OneofDecl) :=
  [.of "name" asString fun o v => { o with name := v }]

/-- Reads a oneof. -/
def OneofDecl.decode : Nat → Decoder OneofDecl := asRecord (fun _ => OneofDecl.members) {}

/-- The members of an enum value. -/
def EnumValueDecl.members : List (RecordMember EnumValueDecl) :=
  [.of "name" asString fun e v => { e with name := v },
    .of "number" asInt32 fun e v => { e with number := v }]

/-- Reads an enum value. -/
def EnumValueDecl.decode : Nat → Decoder EnumValueDecl :=
  asRecord (fun _ => EnumValueDecl.members) {}

/-- The members of an enum. -/
def EnumDecl.members (depth : Nat) : List (RecordMember EnumDecl) :=
  [.of "name" asString fun e v => { e with name := v },
    .of "value" (asList EnumValueDecl.decode depth) fun e v => { e with values := v }]

/-- Reads an enum. -/
def EnumDecl.decode : Nat → Decoder EnumDecl := asRecord EnumDecl.members {}

/-- The options of a message, of which one says whether it is a map entry. -/
def MessageDecl.optionMembers : List (RecordMember Bool) :=
  [.of "mapEntry" asBool fun _ v => v]

/-- The members of a message, where `messages` reads the messages inside it. -/
def MessageDecl.members (depth : Nat) (messages : Decoder (List MessageDecl)) :
    List (RecordMember MessageDecl) :=
  [.of "name" asString fun m v => { m with name := v },
    .of "field" (asList FieldDecl.decode depth) fun m v => { m with fields := v },
    .of "nestedType" messages fun m v => { m with messages := v },
    .of "enumType" (asList EnumDecl.decode depth) fun m v => { m with enums := v },
    .of "oneofDecl" (asList OneofDecl.decode depth) fun m v => { m with oneofs := v },
    .of "options" (asOptional (asRecord (fun _ => MessageDecl.optionMembers) false depth))
      fun m v => { m with isMapEntry := v.getD false }]

/-- Reads a message. A message inside it stands two containers deeper. -/
def MessageDecl.decode : Nat → Decoder MessageDecl
  | 0, _ => .error .malformed
  | 1, d => asMembers (MessageDecl.members 0 fun _ => .error .malformed) {} d
  | depth + 2, d =>
    asMembers (MessageDecl.members (depth + 1) (asItems (MessageDecl.decode depth))) {} d

/-- The members of a file. -/
def FileDecl.members (depth : Nat) : List (RecordMember FileDecl) :=
  [.of "name" asString fun f v => { f with name := v },
    .of "package" (asOptional asString) fun f v => { f with package := v },
    .of "messageType" (asList MessageDecl.decode depth) fun f v => { f with messages := v },
    .of "enumType" (asList EnumDecl.decode depth) fun f v => { f with enums := v }]

/-- Reads a file. -/
def FileDecl.decode : Nat → Decoder FileDecl := asRecord FileDecl.members {}

end ProtoJson
