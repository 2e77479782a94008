import ProtoJson.Schema.Basic
import ProtoJson.Text.WordCase

/-!
# Identifiers

The identifiers that generated Rust source uses for the names of a schema. A name is cut into words
and spelled anew; what the language reserves is marked.
-/

namespace ProtoJson

/-- The words that are identifiers only with `r#` in front. -/
def keywords : List String :=
  ["abstract", "as", "async", "await", "become", "box", "break", "const", "continue", "do", "dyn",
    "else", "enum", "extern", "false", "final", "fn", "for", "gen", "if", "impl", "in", "let",
    "loop", "macro", "match", "mod", "move", "mut", "override", "priv", "pub", "ref", "return",
    "static", "struct", "trait", "true", "try", "type", "typeof", "unsafe", "unsized", "use",
    "virtual", "where", "while", "yield"]

/-- The words that are never identifiers. They get an underscore at the end. -/
def reservedWords : List String := ["self", "Self", "super", "crate", "_"]

/-- A word made usable as an identifier. -/
def identifier (word : String) : String :=
  if word ∈ reservedWords then word ++ "_"
  else if word ∈ keywords then "r#" ++ word
  else word

/-- The identifier of a field or a oneof. -/
def memberIdentifier (name : String) : String := identifier (snakeCase name)

/-- The identifier of an enum value or a oneof member. -/
def variantIdentifier (name : String) : String := identifier (upperCamelCase name)

/-- The identifier of a type, made from its name and the names of the types around it. -/
def typeIdentifier (path : List String) : String :=
  identifier (String.join (path.map upperCamelCase))

/-- The identifier of the enum that stands for a oneof of the type `owner`. -/
def oneofIdentifier (owner name : String) : String := identifier (owner ++ upperCamelCase name)

/-! ## Identifiers of a schema -/

/-- The member of a message type that holds a plain field. -/
def Field.member (f : Field) : String := memberIdentifier f.name

/-- The variant of a oneof that holds a field. -/
def Field.variant (f : Field) : String := variantIdentifier f.name

/-- The function that tests whether a plain field is left out of the output. -/
def Field.emptiness (f : Field) : String := "is_empty_" ++ snakeCase f.name

/-- The member of a message type that holds a oneof. -/
def Oneof.member (o : Oneof) : String := memberIdentifier o.name

namespace MessageType

/-- The identifiers of the types that a message stands for: its own and those of its oneofs. -/
def typeNames (m : MessageType) : List String := m.typeName :: m.oneofs.map (·.typeName)

/-- The member of the pool set that holds the idle messages of a type. -/
def poolMember (m : MessageType) : String := memberIdentifier m.typeName

end MessageType

/-! ## JSON names -/

/-- The JSON name of a field that declares none, where `raised` says whether an underscore has
just been dropped: the character after an underscore is in upper case. -/
def defaultJsonChars (raised : Bool) : List Char → List Char
  | [] => []
  | c :: cs =>
    if c = '_' then defaultJsonChars true cs
    else (if raised then c.toUpper else c) :: defaultJsonChars false cs

/-- The JSON name of a field that declares none. -/
def defaultJsonName (name : String) : String := String.ofList (defaultJsonChars false name.toList)

end ProtoJson
