import ProtoJson.Declaration.Scope
import ProtoJson.Schema.Basic
import ProtoJson.Schema.Distinct
import ProtoJson.Schema.Error
import ProtoJson.Schema.Identifier

/-!
# Resolving declarations

From the declarations of a set of files to their schema: references become indices, map entries are
folded into the fields that use them, oneofs that hold a single optional field disappear, and shapes
and names that no code can be generated for are refused.
-/

namespace ProtoJson

/-- The types that fields can refer to. -/
structure TypeTable where
  messages : List String
  enums : List String
  mapEntries : List (Placed MessageDecl)

namespace TypeTable

/-- The last index of a name. -/
def index? (name : String) (names : List String) : Option Nat :=
  (names.reverse.findIdx? (· == name)).map (names.length - 1 - ·)

/-- The full name that a reference stands for. A dot in front is dropped. -/
def target (reference : String) : String :=
  match reference.toList with
  | '.' :: cs => String.ofList cs
  | _ => reference

/-- The message that a reference names. -/
def message? (t : TypeTable) (reference : String) : Option Nat :=
  index? (target reference) t.messages

/-- The enum that a reference names. -/
def enum? (t : TypeTable) (reference : String) : Option Nat := index? (target reference) t.enums

/-- The map entry that a reference names. -/
def mapEntry? (t : TypeTable) (reference : String) : Option MessageDecl :=
  (t.mapEntries.reverse.find? (·.fullName == target reference)).map (·.decl)

end TypeTable

/-! ## Fields -/

/-- The kind of a field whose type is no reference. Types that differ only outside JSON share a
kind. -/
def FieldType.scalar? : FieldType → Option Kind
  | double => some .float64
  | float => some .float32
  | int32 | sint32 | sfixed32 => some (.integer .int32)
  | int64 | sint64 | sfixed64 => some (.integer .int64)
  | uint32 | fixed32 => some (.integer .uint32)
  | uint64 | fixed64 => some (.integer .uint64)
  | bool => some .bool
  | string => some .string
  | bytes => some .bytes
  | group | message | enumeration => none

/-- The kind of map key that a field of this kind is. -/
def Kind.key? : Kind → Option KeyKind
  | .bool => some .bool
  | .integer kind => some (.integer kind)
  | .string => some .string
  | _ => none

namespace TypeTable

/-- The kind of a field. -/
def kind (t : TypeTable) (context : String) (f : FieldDecl) : Except SchemaError Kind :=
  let reference := f.typeName.getD ""
  match f.type with
  | none => .error (.unsupported context .untypedField)
  | some .message =>
    match t.message? reference, t.mapEntry? reference with
    | some i, _ => .ok (.message i)
    | none, some _ => .error (.unsupported context .strayMapEntry)
    | none, none => .error (.unresolved reference context)
  | some .enumeration =>
    match t.enum? reference with
    | some i => .ok (.enumeration i)
    | none => .error (.unresolved reference context)
  | some type =>
    match type.scalar? with
    | some kind => .ok kind
    | none => .error (.unsupported context .groupField)

/-- The entry type of a map field. -/
def entryOf? (t : TypeTable) (f : FieldDecl) : Option MessageDecl :=
  if f.label = some .repeated ∧ f.type = some .message then f.typeName.bind t.mapEntry? else none

/-- The kind of the field number `n` of a map entry. -/
def entryKind (t : TypeTable) (context : String) (entry : MessageDecl) (n : Int) :
    Except SchemaError Kind :=
  match entry.fields.find? (·.number = n) with
  | some f => t.kind context f
  | none => .error (.unsupported context .incompleteMapEntry)

/-- The kind and the cardinality of a map field. Field 1 of its entry type is the key and field 2
is the value. -/
def mapShape (t : TypeTable) (context : String) (entry : MessageDecl) :
    Except SchemaError (Kind × Cardinality) := do
  match (← t.entryKind context entry 1).key? with
  | some key => return (← t.entryKind context entry 2, .map key)
  | none => throw (.unsupported context .mapKey)

/-- The kind and the cardinality of a field. -/
def shape (t : TypeTable) (context : String) (f : FieldDecl) :
    Except SchemaError (Kind × Cardinality) :=
  match t.entryOf? f with
  | some entry => t.mapShape context entry
  | none => (t.kind context f).map fun kind =>
    (kind, if f.label = some .repeated then .list else .singular)

/-- A field, where `oneof` is the oneof that it is a member of. -/
def field (t : TypeTable) (context : String) (oneof : Option Nat) (f : FieldDecl) :
    Except SchemaError Field := do
  let (kind, cardinality) ← t.shape context f
  if oneof.isSome ∧ cardinality ≠ .singular then throw (.unsupported context .oneofMember)
  return { name := f.name, jsonName := f.jsonName.getD (defaultJsonName f.name), kind, cardinality,
           oneof }

end TypeTable

/-! ## Oneofs -/

namespace MessageDecl

/-- Whether a field refers to the oneof declared at `index`, other than to record whether it is
set. -/
def usesOneof (m : MessageDecl) (index : Nat) : Bool :=
  m.fields.any fun f => f.oneofIndex = some (index : Int) && !f.isOptional

/-- The oneofs that fields are members of, each with the index of its declaration. -/
def keptOneofs (m : MessageDecl) : List (OneofDecl × Nat) :=
  m.oneofs.zipIdx.filter fun o => m.usesOneof o.2

/-- The place among the kept oneofs of the one that a field is a member of. -/
def oneofOf? (m : MessageDecl) (f : FieldDecl) : Option Nat :=
  if f.isOptional then none
  else f.oneofIndex.bind fun i => m.keptOneofs.findIdx? fun o => (o.2 : Int) = i

end MessageDecl

/-! ## Messages and enums -/

/-- What must be distinct among the fields of a message: the words of their names, and their JSON
names. -/
inductive FieldKey where
  | member (name : String)
  | json (name : String)
  deriving DecidableEq, Repr

/-- The text of a key. -/
def FieldKey.name : FieldKey → String
  | member name | json name => name

/-- The keys of a field, each with the name it was declared by. -/
def Field.keys (f : Field) : List (FieldKey × String) :=
  [(.member (snakeCase f.name), f.name), (.json f.jsonName, f.name)]

namespace MessageType

/-- Refuses fields that share a key. -/
def checkFields (m : MessageType) : Except SchemaError Unit :=
  match firstRepeat? (m.fields.flatMap Field.keys) with
  | some (key, first, second) =>
    .error (.duplicate key.name s!"{m.fullName}.{first}" s!"{m.fullName}.{second}")
  | none => .ok ()

/-- The words of the names of plain fields and oneofs, each with the item it stands for. -/
def memberNames (m : MessageType) : List (String × String) :=
  m.plainFields.map (fun f => (snakeCase f.name, s!"{m.fullName}.{f.name}")) ++
    m.oneofs.map fun o => (snakeCase o.name, s!"oneof {m.fullName}.{o.name}")

/-- Refuses plain fields and oneofs that would be the same member. -/
def checkMembers (m : MessageType) : Except SchemaError Unit :=
  match firstRepeat? m.memberNames with
  | some (name, first, second) => .error (.duplicate name first second)
  | none => .ok ()

end MessageType

/-- The message of a declaration. -/
def TypeTable.message (t : TypeTable) (p : Placed MessageDecl) :
    Except SchemaError MessageType := do
  let m := p.decl
  let typeName := typeIdentifier p.scope.path
  let fields ← m.fields.mapM fun f => t.field s!"{p.fullName}.{f.name}" (m.oneofOf? f) f
  let oneofs := m.keptOneofs.map fun o => ⟨o.1.name, oneofIdentifier typeName o.1.name⟩
  let message : MessageType := { fullName := p.fullName, typeName, fields, oneofs }
  message.checkFields
  message.checkMembers
  return message

namespace EnumType

/-- The first variant that two values would get, with the names of both. Aliases get no variant of
their own. `numbers` are the numbers so far, and `variants` the variants so far, each with the name
of its value. -/
def clashAfter? (numbers : List Int) (variants : List (String × String)) :
    List EnumValue → Option (String × String × String)
  | [] => none
  | v :: vs =>
    if v.number ∈ numbers then clashAfter? numbers variants vs
    else
      match variants.find? (·.1 = v.variant) with
      | some (_, first) => some (v.variant, first, v.name)
      | none => clashAfter? (v.number :: numbers) ((v.variant, v.name) :: variants) vs

/-- The first variant that two values would get, with the names of both. -/
def clash? (e : EnumType) : Option (String × String × String) := clashAfter? [] [] e.values

end EnumType

/-- The enum of a declaration. -/
def Placed.enumType (p : Placed EnumDecl) : Except SchemaError EnumType := do
  if p.decl.values.isEmpty then throw (.unsupported p.fullName .emptyEnum)
  let e : EnumType :=
    { fullName := p.fullName
      typeName := typeIdentifier p.scope.path
      values := p.decl.values.map fun v => ⟨v.name, v.number, variantIdentifier v.name⟩ }
  match e.clash? with
  | some (name, first, second) =>
    throw (.duplicate name s!"{e.fullName}.{first}" s!"{e.fullName}.{second}")
  | none => return e

/-! ## Schemas -/

namespace Schema

/-- The identifiers of all types, each with the full name of the enum or message behind it. -/
def typeNames (s : Schema) : List (String × String) :=
  s.enums.map (fun e => (e.typeName, e.fullName)) ++
    s.messages.flatMap fun m => m.typeNames.map fun name => (name, m.fullName)

/-- The members of the pool set, each with the full name of its message. -/
def poolMembers (s : Schema) : List (String × String) :=
  s.messages.map fun m => (m.poolMember, m.fullName)

/-- Refuses entries that share a name. -/
def checkDistinct (entries : List (String × String)) : Except SchemaError Unit :=
  match firstRepeat? entries with
  | some (name, first, second) => .error (.duplicate name first second)
  | none => .ok ()

/-- The schema of a list of files. -/
def ofFiles (files : List FileDecl) : Except SchemaError Schema := do
  let placed := files.flatMap FileDecl.placedMessages
  let placedEnums := files.flatMap FileDecl.placedEnums
  let placedMessages := placed.filter (!·.decl.isMapEntry)
  let table : TypeTable :=
    { messages := placedMessages.map (·.fullName)
      enums := placedEnums.map (·.fullName)
      mapEntries := placed.filter (·.decl.isMapEntry) }
  let enums ← placedEnums.mapM (·.enumType)
  let messages ← placedMessages.mapM table.message
  let schema : Schema := { sources := files.map (·.name), enums, messages }
  checkDistinct schema.typeNames
  checkDistinct schema.poolMembers
  return schema

end Schema

end ProtoJson
