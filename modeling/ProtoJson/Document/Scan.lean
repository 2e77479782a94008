import ProtoJson.Document.Token

/-!
# Scanning documents

From the bytes of a text to its document. The containers that are open are held in a stack, so a
document may nest to any depth. `DocumentState.step` says what a token does; `scan` runs it until
the document ends or no token fits.
-/

namespace ProtoJson

/-- A container part of the way through. What it holds so far is in reverse. -/
inductive OpenDocument where
  | array (items : List Document)
  | object (members : List (List UInt8 × Document))
  /-- An object whose member `key` has no value yet. -/
  | member (members : List (List UInt8 × Document)) (key : List UInt8)

/-- What must come next. -/
inductive DocumentStage where
  | value
  /-- The first item of an array or its end. -/
  | firstItem
  | key
  /-- The first key of an object or its end. -/
  | firstKey
  | colon
  /-- A comma or the end of a container. -/
  | comma
  deriving DecidableEq, Repr

/-- The open containers, innermost first, and what must come next. -/
structure DocumentState where
  stack : List OpenDocument := []
  stage : DocumentStage := .value

/-- What comes of a token. -/
inductive DocumentStep where
  | more (s : DocumentState)
  | done (d : Document)
  | fault

namespace DocumentState

/-- Puts a value where the innermost container wants it. Without a container it is the document. -/
def deliver (d : Document) : List OpenDocument → DocumentStep
  | [] => .done d
  | .array items :: stack => .more ⟨.array (d :: items) :: stack, .comma⟩
  | .member members key :: stack => .more ⟨.object ((key, d) :: members) :: stack, .comma⟩
  | .object _ :: _ => .fault

/-- Takes the token that a value starts with. -/
def takeValue (stack : List OpenDocument) : DocumentToken → DocumentStep
  | .openArray => .more ⟨.array [] :: stack, .firstItem⟩
  | .openObject => .more ⟨.object [] :: stack, .firstKey⟩
  | .scalar d => deliver d stack
  | .string raw => deliver (.string raw) stack
  | _ => .fault

/-- Takes the key of a member. -/
def takeKey : List OpenDocument → DocumentToken → DocumentStep
  | .object members :: stack, .string raw => .more ⟨.member members raw :: stack, .colon⟩
  | _, _ => .fault

/-- Takes the end of the innermost container. -/
def close : List OpenDocument → DocumentToken → DocumentStep
  | .array items :: stack, .closeArray => deliver (.array items.reverse true) stack
  | .object members :: stack, .closeObject => deliver (.object members.reverse true) stack
  | _, _ => .fault

/-- What a token does to a state. -/
def step (s : DocumentState) (t : DocumentToken) : DocumentStep :=
  match s.stage, t with
  | .value, _ => takeValue s.stack t
  | .firstItem, .closeArray => close s.stack t
  | .firstItem, _ => takeValue s.stack t
  | .firstKey, .closeObject => close s.stack t
  | .firstKey, _ => takeKey s.stack t
  | .key, _ => takeKey s.stack t
  | .colon, .colon => .more { s with stage := .value }
  | .colon, _ => .fault
  | .comma, .comma =>
    match s.stack with
    | .array _ :: _ => .more { s with stage := .value }
    | _ => .more { s with stage := .key }
  | .comma, _ => close s.stack t

/-- The document of a text that stops with containers open, where `d` is what the innermost one
holds last. -/
def abandon (d : Document) : List OpenDocument → Document
  | [] => d
  | .array items :: stack => abandon (.array (d :: items).reverse false) stack
  | .object members :: stack => abandon (.object members.reverse false) stack
  | .member members key :: stack => abandon (.object ((key, d) :: members).reverse false) stack

/-- The document that a text goes on to from a state, and what follows it. Nothing follows a text
that stops. -/
def scan (s : DocumentState) (bs : List UInt8) : Document × List UInt8 :=
  match _h : DocumentToken.next? bs with
  | none => (abandon .cut s.stack, [])
  | some (t, rest) =>
    match s.step t with
    | .more s => scan s rest
    | .done d => (d, rest)
    | .fault => (abandon .cut s.stack, [])
termination_by bs.length
decreasing_by exact DocumentToken.length_next? ‹_›

end DocumentState

/-- The document at the front of a text, and what follows it. -/
def Document.scan (bs : List UInt8) : Document × List UInt8 := DocumentState.scan {} bs

end ProtoJson
