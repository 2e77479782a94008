import ProtoJson.Message.Basic

/-!
# Writing messages

The JSON text of a message has its plain fields that are not empty, in the order of their
declaration, and then the member that each oneof holds. Enum values are written by name, map
entries in ascending order of their keys.
-/

namespace ProtoJson

/-- Appends the name of an enum value in quotes. -/
def EnumType.write (e : EnumType) (number : Int) (b : Buffer) : Buffer :=
  b.writeQuoted (((e.ofNumber? number).map (·.name)).getD "")

/-- Appends a JSON name in quotes, and a colon. -/
def Field.writeKey (f : Field) (b : Buffer) : Buffer :=
  b.write (((Buffer.empty.writeQuoted f.jsonName).writeByte (ascii ':')).toList)

/-- Takes back the last comma and closes a container. -/
def Buffer.closeWith (b : Buffer) (bracket : Char) : Buffer :=
  b.dropComma.writeByte (ascii bracket)

mutual

/-- Appends a value of a kind. -/
def Datum.write (schema : Schema) (kind : Kind) : Datum → Buffer → Buffer
  | .bool v, b => b.writeBool v
  | .integer v, b => b.writeInteger v
  | .float32 x, b => b.writeBinary x
  | .float64 x, b => b.writeBinary x
  | .string s, b => b.writeQuoted s
  | .bytes bs, b => b.writeBase64 bs
  | .enumeration number, b =>
    match kind with
    | .enumeration i => (schema.enumType i).write number b
    | _ => b.writeInteger number
  | .message m, b =>
    match kind with
    | .message i => Message.write schema i m b
    | _ => b

/-- Appends each element of a list and a comma. -/
def writeElements (schema : Schema) (kind : Kind) : List Datum → Buffer → Buffer
  | [], b => b
  | d :: ds, b => writeElements schema kind ds ((Datum.write schema kind d b).writeByte (ascii ','))

/-- Appends each entry of a map and a comma. -/
def writeEntries (schema : Schema) (kind : Kind) : List (MapKey × Datum) → Buffer → Buffer
  | [], b => b
  | (key, d) :: es, b =>
    writeEntries schema kind es
      ((Datum.write schema kind d (key.writeMember b)).writeByte (ascii ','))

/-- Appends the value of a field. -/
def Content.write (schema : Schema) (kind : Kind) : Content → Buffer → Buffer
  | .absent, b => b
  | .single d, b => Datum.write schema kind d b
  | .list ds, b => (writeElements schema kind ds (b.writeByte (ascii '['))).closeWith ']'
  | .map es, b => (writeEntries schema kind es (b.writeByte (ascii '{'))).closeWith '}'

/-- Appends the plain fields that are not empty, each with its key and a comma. -/
def writePlain (schema : Schema) : List Content → List Field → Buffer → Buffer
  | c :: cs, f :: fs, b =>
    if c.isEmpty then writePlain schema cs fs b
    else
      writePlain schema cs fs ((Content.write schema f.kind c (f.writeKey b)).writeByte (ascii ','))
  | _, _, b => b

/-- Appends the member that each oneof holds, with its key and a comma. `index` is the number of the
first oneof. -/
def writeChoices (schema : Schema) (type : MessageType) : List Choice → Nat → Buffer → Buffer
  | [], _, b => b
  | .unset :: cs, index, b => writeChoices schema type cs (index + 1) b
  | .member k d :: cs, index, b =>
    match (type.members index)[k]? with
    | none => writeChoices schema type cs (index + 1) b
    | some f =>
      writeChoices schema type cs (index + 1)
        ((Datum.write schema f.kind d (f.writeKey b)).writeByte (ascii ','))

/-- Appends the JSON text of a message. -/
def Message.write (schema : Schema) (index : Nat) : Message → Buffer → Buffer
  | .mk plain choices, b =>
    let type := schema.messageType index
    let b := writePlain schema plain type.plainFields (b.writeByte (ascii '{'))
    (writeChoices schema type choices 0 b).closeWith '}'

end

end ProtoJson
