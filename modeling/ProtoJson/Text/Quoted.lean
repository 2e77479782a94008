import ProtoJson.Text.Ascii
import ProtoJson.Text.Printable

/-!
# Quoted text

A text in double quotes, as it stands in messages and in emitted source: every character that
prints as itself is kept, the rest is written with a backslash.
-/

namespace ProtoJson

/-- The form of a character between the quotes. -/
def quoteChar (c : Char) : List Char :=
  if c = '"' then ['\\', '"']
  else if c = '\\' then ['\\', '\\']
  else if c = '\x00' then ['\\', '0']
  else if c = '\t' then ['\\', 't']
  else if c = '\n' then ['\\', 'n']
  else if c = '\r' then ['\\', 'r']
  else if isPrintable c then [c]
  else ['\\', 'u', '{'] ++ hexDigits c.toNat ++ ['}']

/-- A string in double quotes. -/
def quoted (s : String) : String :=
  String.ofList ('"' :: (s.toList.flatMap quoteChar ++ ['"']))

end ProtoJson
