import ProtoJson.Document.Basic
import ProtoJson.Text.Escape

/-!
# Strings of a document

What the text between two quotes stands for, and the quoted form of a text.
-/

namespace ProtoJson

/-- The text that the bytes between two quotes stand for. There is none if they are no UTF-8 or
escape half of a surrogate pair. -/
def decodeString? (raw : List UInt8) : Option String :=
  ((Utf8.decode? raw).bind (Escape.unescape? none)).map String.ofList

/-- The form of a character between quotes. Only quotes, backslashes and control characters are
escaped. -/
def documentChar (c : Char) : List Char :=
  if c = '"' then ['\\', '"']
  else if c = '\\' then ['\\', '\\']
  else if c = '\x08' then ['\\', 'b']
  else if c = '\x0c' then ['\\', 'f']
  else if c = '\n' then ['\\', 'n']
  else if c = '\r' then ['\\', 'r']
  else if c = '\t' then ['\\', 't']
  else if c.toNat < 0x20 then Escape.unicode c.toNat
  else [c]

/-- A text in quotes. -/
def documentString (s : String) : List Char := '"' :: (s.toList.flatMap documentChar ++ ['"'])

end ProtoJson
