import Mathlib.Logic.Relation
import ProtoJson.Document.Number
import ProtoJson.Document.Text

/-!
# Spellings of a request

Which members the records of a request have and what these hold, and when one document spells the
same request as another: the members of an object may stand in any order, members that are not
declared may be added, members that hold their default may be left out, and what is chosen from a
list of names may be written by name or by number. Nothing here refers to the readers of a request.
-/

namespace ProtoJson

/-! ## The records of a request -/

/-- The records that a request is made of. -/
inductive RecordType where
  | request
  | file
  | message
  | options
  | field
  | oneof
  | enumeration
  | enumValue
  deriving DecidableEq, Repr

/-- What a member holds. -/
inductive Form where
  | text
  | number
  | flag
  /-- One of the names, or its place among them counted from one. -/
  | choice (names : List String)
  /-- What the form says, or null. -/
  | optional (form : Form)
  | list (form : Form)
  | record (t : RecordType)
  deriving DecidableEq, Repr

/-- The names of the labels. -/
def labelNames : List String := ["LABEL_OPTIONAL", "LABEL_REQUIRED", "LABEL_REPEATED"]

/-- The names of the field types. -/
def fieldTypeNames : List String :=
  ["TYPE_DOUBLE", "TYPE_FLOAT", "TYPE_INT64", "TYPE_UINT64", "TYPE_INT32", "TYPE_FIXED64",
    "TYPE_FIXED32", "TYPE_BOOL", "TYPE_STRING", "TYPE_GROUP", "TYPE_MESSAGE", "TYPE_BYTES",
    "TYPE_UINT32", "TYPE_ENUM", "TYPE_SFIXED32", "TYPE_SFIXED64", "TYPE_SINT32", "TYPE_SINT64"]

/-- The members of a record in order. -/
def RecordType.members : RecordType → List (String × Form)
  | request =>
    [("fileToGenerate", .list .text), ("parameter", .optional .text),
      ("protoFile", .list (.record file))]
  | file =>
    [("name", .text), ("package", .optional .text), ("messageType", .list (.record message)),
      ("enumType", .list (.record enumeration))]
  | message =>
    [("name", .text), ("field", .list (.record field)), ("nestedType", .list (.record message)),
      ("enumType", .list (.record enumeration)), ("oneofDecl", .list (.record oneof)),
      ("options", .optional (.record options))]
  | options => [("mapEntry", .flag)]
  | field =>
    [("name", .text), ("number", .number), ("label", .optional (.choice labelNames)),
      ("type", .optional (.choice fieldTypeNames)), ("typeName", .optional .text),
      ("jsonName", .optional .text), ("oneofIndex", .optional .number), ("proto3Optional", .flag)]
  | oneof => [("name", .text)]
  | enumeration => [("name", .text), ("value", .list (.record enumValue))]
  | enumValue => [("name", .text), ("number", .number)]

/-- What the member of a name holds, if there is one. -/
def RecordType.form? (t : RecordType) (key : String) : Option Form := t.members.lookup key

/-! ## Spellings of the same request -/

/-- The document writes the default of a form. -/
inductive IsDefault : Form → Document → Prop
  | text : IsDefault .text (.string [])
  | number : IsDefault .number (.number ⟨false, ['0'], [], none⟩)
  | flag : IsDefault .flag (.bool false)
  | optional {f : Form} : IsDefault (.optional f) .null
  | list {f : Form} : IsDefault (.list f) (.array [] true)

/-- The document writes the choice in place `i` of the names. -/
inductive Chooses (names : List String) (i : Nat) : Document → Prop
  | name {raw : List UInt8} {name : String} (hraw : decodeString? raw = some name)
      (hname : names[i]? = some name) : Chooses names i (.string raw)
  | number {n : NumberText} (hn : n.integer? = some ((i + 1 : Nat) : Int))
      (hi : i < names.length) :
      Chooses names i (.number n)

/-- The second document spells what the first one spells, with one change to the spelling. Since
members may change their order it is enough to say what happens to the first. -/
inductive Respelling : Form → Document → Document → Prop
  /-- A choice is written by name or by number. -/
  | choice {names : List String} {i : Nat} {d d' : Document} (h : Chooses names i d)
      (h' : Chooses names i d') : Respelling (.choice names) d d'
  /-- The members of an object stand in another order. -/
  | permute {t : RecordType} {ms ms' : List (List UInt8 × Document)} (h : ms.Perm ms') :
      Respelling (.record t) (.object ms true) (.object ms' true)
  /-- A member that is not declared is added. -/
  | add {t : RecordType} {raw : List UInt8} {key : String} {d : Document}
      {ms : List (List UInt8 × Document)} (hkey : decodeString? raw = some key)
      (ht : t.form? key = none) (hd : d.isWhole = true) :
      Respelling (.record t) (.object ms true) (.object ((raw, d) :: ms) true)
  /-- A member that is not declared holds something else. -/
  | alter {t : RecordType} {raw : List UInt8} {key : String} {d d' : Document}
      {ms : List (List UInt8 × Document)} (hkey : decodeString? raw = some key)
      (ht : t.form? key = none) (hd : d'.isWhole = true) :
      Respelling (.record t) (.object ((raw, d) :: ms) true) (.object ((raw, d') :: ms) true)
  /-- A member that holds its default is left out. -/
  | drop {t : RecordType} {raw : List UInt8} {key : String} {f : Form} {d : Document}
      {ms : List (List UInt8 × Document)} (hkey : decodeString? raw = some key)
      (ht : t.form? key = some f) (hd : IsDefault f d) :
      Respelling (.record t) (.object ((raw, d) :: ms) true) (.object ms true)
  /-- What a member holds is spelled in another way. -/
  | member {t : RecordType} {raw : List UInt8} {key : String} {f : Form} {d d' : Document}
      {ms : List (List UInt8 × Document)} (hkey : decodeString? raw = some key)
      (ht : t.form? key = some f) (hd : Respelling f d d') :
      Respelling (.record t) (.object ((raw, d) :: ms) true) (.object ((raw, d') :: ms) true)
  /-- So is what a record written as an array holds in one place. -/
  | position {t : RecordType} {key : String} {f : Form} {d d' : Document} {xs ys : List Document}
      (ht : t.members[xs.length]? = some (key, f)) (hd : Respelling f d d') :
      Respelling (.record t) (.array (xs ++ d :: ys) true) (.array (xs ++ d' :: ys) true)
  /-- So is an item of a list. -/
  | item {f : Form} {d d' : Document} {xs ys : List Document} (hd : Respelling f d d') :
      Respelling (.list f) (.array (xs ++ d :: ys) true) (.array (xs ++ d' :: ys) true)
  /-- So is what may be null and is not. -/
  | present {f : Form} {d d' : Document} (hd : Respelling f d d') :
      Respelling (.optional f) d d'

/-- The second document spells what the first one spells. -/
def Respells (f : Form) : Document → Document → Prop := Relation.ReflTransGen (Respelling f)

/-- What a member holds may be respelled many times in a row, -/
theorem Respells.member {t : RecordType} {raw : List UInt8} {key : String} {f : Form}
    {d d' : Document} (hkey : decodeString? raw = some key) (ht : t.form? key = some f)
    (ms : List (List UInt8 × Document)) (h : Respells f d d') :
    Respells (.record t) (.object ((raw, d) :: ms) true) (.object ((raw, d') :: ms) true) := by
  induction h with
  | refl => exact .refl
  | tail _ hstep ih => exact ih.tail (.member hkey ht hstep)

/-- and so may an item of a list. -/
theorem Respells.item {f : Form} {d d' : Document} (xs ys : List Document) (h : Respells f d d') :
    Respells (.list f) (.array (xs ++ d :: ys) true) (.array (xs ++ d' :: ys) true) := by
  induction h with
  | refl => exact .refl
  | tail _ hstep ih => exact ih.tail (.item hstep)

/-- Where something may be null, its spellings are not. -/
theorem Respelling.ne_null {f : Form} {d d' : Document} (h : Respelling f d d') :
    d ≠ .null ∧ d' ≠ .null := by
  induction h with
  | choice h h' => cases h <;> cases h' <;> exact ⟨nofun, nofun⟩
  | present _ ih => exact ih
  | _ => exact ⟨nofun, nofun⟩

end ProtoJson
