/-!
# JSON documents

A JSON text as it is written: strings by the bytes between their quotes, numbers by their digits,
members in order and with repetition. Nothing is decoded yet, so a reader can pass over what it does
not know. A document may be the beginning of a text that stops being JSON: `cut` stands where it
does, and the containers around that place are not whole.
-/

namespace ProtoJson

/-- The digits of a number as they are written. -/
structure NumberText where
  negative : Bool
  whole : List Char
  /-- The digits after the point. There are none if there is no point. -/
  fraction : List Char
  /-- Whether the exponent is negative, and its digits. -/
  exponent : Option (Bool × List Char)
  deriving DecidableEq, Repr

/-- A JSON text, or the beginning of one. -/
inductive Document where
  | null
  | bool (b : Bool)
  | number (n : NumberText)
  | string (raw : List UInt8)
  | array (items : List Document) (whole : Bool)
  | object (members : List (List UInt8 × Document)) (whole : Bool)
  | cut
  deriving Repr, Inhabited

/-- Whether the text of a document is JSON to its end. -/
def Document.isWhole : Document → Bool
  | array _ whole | object _ whole => whole
  | cut => false
  | _ => true

end ProtoJson
