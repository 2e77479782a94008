import ProtoJson.Message.Decode
import ProtoJson.Message.Encode

/-!
# The codec

Messages to bytes and back, with pooled buffers on the way out and pooled messages on the way in.
-/

namespace ProtoJson

/-- The JSON text of a message. -/
def Schema.json (schema : Schema) (index : Nat) (m : Message) : List UInt8 :=
  (m.write schema index .empty).toList

/-- The JSON text of a message, written in a buffer of the pool. -/
def Schema.marshal (schema : Schema) (index : Nat) (m : Message) (buffers : Pool Buffer) :
    List UInt8 × Pool Buffer :=
  let (b, buffers) := buffers.acquire .empty
  let b := m.write schema index b.reset
  (b.toList, buffers.release b)

/-- Appends the JSON text of a message to a buffer. -/
def Schema.marshalInto (schema : Schema) (index : Nat) (m : Message) (b : Buffer) : Buffer :=
  m.write schema index b

/-- Reads a JSON object at the start of the input into a message. What follows the object is not
looked at. -/
def Schema.unmarshal (schema : Schema) (index : Nat) (input : List UInt8) (options : ReadOptions)
    (m : Message) (ps : Pools) : Except ReadError Unit × Message × Session :=
  schema.readMessage index m { pools := ps, reader := .ofBytes input options }

/-- Whether each plain field is left out of the JSON text, by name. -/
def Schema.emptiness (schema : Schema) (index : Nat) (m : Message) : List (String × Bool) :=
  ((schema.messageType index).plainFields.zip m.plain).map fun (f, c) => (f.name, c.isEmpty)

end ProtoJson
