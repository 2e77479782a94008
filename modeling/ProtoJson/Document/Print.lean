import ProtoJson.Document.Number
import ProtoJson.Document.Text

/-!
# Values of a document

The value that a document stands for, as a text without blanks: keys in ascending order, the last of
equal keys counting, and every number in one spelling. Not every document has a value, since strings
must be decodable, numbers finite, and containers may nest only so deep.
-/

namespace ProtoJson.Document

/-- Members in ascending order of their keys with `key` standing for `text`. A member of that key is
replaced. -/
def insertText (key : String) (text : List Char) :
    List (String × List Char) → List (String × List Char)
  | [] => [(key, text)]
  | (k, t) :: rest =>
    if key < k then (key, text) :: (k, t) :: rest
    else if key = k then (key, text) :: rest
    else (k, t) :: insertText key text rest

/-- Parts with commas between them. -/
def joinCommas (parts : List (List Char)) : List Char := [','].intercalate parts

mutual

/-- The text of the value of a document in which `depth` containers may stand inside each other. -/
def text? (depth : Nat) : Document → Option (List Char)
  | null => some "null".toList
  | bool b => some (if b then "true".toList else "false".toList)
  | number n => n.text?
  | string raw => (decodeString? raw).map documentString
  | array items whole =>
    if depth = 0 ∨ !whole then none
    else (itemTexts? (depth - 1) items).map fun ts => '[' :: (joinCommas ts ++ [']'])
  | object members whole =>
    if depth = 0 ∨ !whole then none
    else (memberTexts? (depth - 1) members).map fun ms =>
      let sorted := ms.foldl (fun sorted (key, text) => insertText key text sorted) []
      '\x7b' :: (joinCommas (sorted.map fun (key, text) => documentString key ++ ':' :: text) ++
        ['\x7d'])
  | cut => none

/-- The texts of the items of an array. -/
def itemTexts? (depth : Nat) : List Document → Option (List (List Char))
  | [] => some []
  | d :: ds => do return (← text? depth d) :: (← itemTexts? depth ds)

/-- The decoded keys of an object, each with the text of its value. -/
def memberTexts? (depth : Nat) : List (List UInt8 × Document) → Option (List (String × List Char))
  | [] => some []
  | (raw, d) :: ms => do return (← decodeString? raw, ← text? depth d) :: (← memberTexts? depth ms)

end

end ProtoJson.Document
