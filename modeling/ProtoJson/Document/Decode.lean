import ProtoJson.Document.Print
import ProtoJson.Document.Scan
import ProtoJson.Number.Integer

/-!
# Decoding documents

Readers that take a document as a value of a given type. A record is an object or an array: an
object names its members, in any order and each at most once, and what it does not name keeps its
default; an array gives them in the order of their declaration. Members of unknown names are passed
over. The argument `depth` of a reader says how many containers may be opened inside each other.
-/

namespace ProtoJson

/-- Why a document cannot be decoded. -/
inductive DecodeError where
  /-- The text is no JSON, or its shape is another than the one expected. -/
  | malformed
  | unknownLabel (value : String)
  | unknownFieldType (value : String)
  deriving DecidableEq, Repr

/-- The text of an error. Nothing is said of a malformed document. -/
def DecodeError.message? : DecodeError → Option String
  | malformed => none
  | unknownLabel value => some s!"unknown Label {value}"
  | unknownFieldType value => some s!"unknown FieldType {value}"

/-- A reader of a type. -/
abbrev Decoder (α : Type) := Document → Except DecodeError α

namespace Document

/-- The value, if there is one. -/
def orMalformed {α : Type} : Option α → Except DecodeError α
  | some a => .ok a
  | none => .error .malformed

/-- A value of a container, which counts only if the container is whole. -/
def ifWhole {α : Type} (whole : Bool) (a : α) : Except DecodeError α :=
  if whole then .ok a else .error .malformed

/-! ## Scalars -/

/-- Reads a string. -/
def asString : Decoder String
  | string raw => orMalformed (decodeString? raw)
  | _ => .error .malformed

/-- Reads a boolean. -/
def asBool : Decoder Bool
  | bool b => .ok b
  | _ => .error .malformed

/-- Reads an integer of 32 bits. -/
def asInt32 : Decoder Int
  | number n => orMalformed (n.integer?.bind IntegerKind.int32.fit?)
  | _ => .error .malformed

/-- Reads a value that may be null. -/
def asOptional {α : Type} (read : Decoder α) : Decoder (Option α)
  | null => .ok none
  | d => (read d).map some

/-- The entry of a table that a document gives by name or by number. -/
def named? {α : Type} (table : List (String × Int × α)) : Document → Option α
  | string raw => do
    let name ← decodeString? raw
    (table.find? (·.1 == name)).map (·.2.2)
  | number n => do
    let v ← n.integer?
    (table.find? (·.2.1 == v)).map (·.2.2)
  | _ => none

/-- Reads a value that stands in a table under a name and a number, and is written as either. -/
def asNamed {α : Type} (table : List (String × Int × α)) (unknown : String → DecodeError)
    (depth : Nat) (d : Document) : Except DecodeError α :=
  match d.named? table with
  | some a => .ok a
  | none =>
    match d.text? depth with
    | some text => .error (unknown (String.ofList text))
    | none => .error .malformed

/-! ## Containers -/

/-- Reads an array whose items `read` reads. -/
def asItems {α : Type} (read : Decoder α) : Decoder (List α)
  | array items whole => do ifWhole whole (← items.mapM read)
  | _ => .error .malformed

/-- Reads an array. -/
def asList {α : Type} (read : Nat → Decoder α) : Nat → Decoder (List α)
  | 0, _ => .error .malformed
  | depth + 1, d => asItems (read depth) d

end Document

/-- A member of a record: its name, and how its document changes the record. -/
structure RecordMember (σ : Type) where
  key : String
  read : Document → σ → Except DecodeError σ

/-- The member that `read` reads and `set` puts into the record. -/
def RecordMember.of {σ α : Type} (key : String) (read : Decoder α) (set : σ → α → σ) :
    RecordMember σ :=
  ⟨key, fun d r => (read d).map (set r)⟩

namespace Document

variable {σ : Type}

/-- Reads the members of an object in turn. `seen` holds the names that were read before. -/
def readMembers (members : List (RecordMember σ)) (seen : List String) :
    List (List UInt8 × Document) → σ → Except DecodeError σ
  | [], r => .ok r
  | (raw, d) :: rest, r => do
    let key ← orMalformed (decodeString? raw)
    match members.find? (·.key == key) with
    | none => readMembers members seen rest (← ifWhole d.isWhole r)
    | some m =>
      if key ∈ seen then throw .malformed
      else readMembers members (key :: seen) rest (← m.read d r)

/-- Reads the items of an array as the first members of a record. -/
def readPositions : List (RecordMember σ) → List Document → σ → Except DecodeError σ
  | _, [], r => .ok r
  | [], _ :: _, _ => .error .malformed
  | m :: ms, d :: ds, r => do readPositions ms ds (← m.read d r)

/-- Reads a record that starts out as `r`. -/
def asMembers (members : List (RecordMember σ)) (r : σ) : Decoder σ
  | object ms whole => do ifWhole whole (← readMembers members [] ms r)
  | array items whole => do ifWhole whole (← readPositions members items r)
  | _ => .error .malformed

/-- Reads a record that starts out as `r`, where the argument of `members` is the depth inside. -/
def asRecord (members : Nat → List (RecordMember σ)) (r : σ) : Nat → Decoder σ
  | 0, _ => .error .malformed
  | depth + 1, d => asMembers (members depth) r d

/-- So many containers may stand inside each other. -/
def maxDepth : Nat := 127

/-- Reads a whole text. -/
def decode {α : Type} (read : Nat → Decoder α) (text : List UInt8) : Except DecodeError α := do
  let (d, rest) := Document.scan text
  ifWhole (rest.all isBlank) (← read maxDepth d)

end Document

end ProtoJson
