import ProtoJson.Buffer

/-!
# Literals

Byte-string literals of generated source, and the literal that an encoder writes in front of a
member: its JSON name in quotes, a colon, and the bracket that opens a list or a map.
-/

namespace ProtoJson

/-- The form of a byte in a literal. Bytes that are no printable ASCII are written by number. -/
def literalByte (b : UInt8) : List Char :=
  if b = ascii '"' then ['\\', '"']
  else if b = ascii '\\' then ['\\', '\\']
  else if 0x20 ≤ b ∧ b ≤ 0x7e then [Char.ofNat b.toNat]
  else ['\\', 'x', hexDigit (b.toNat / 16), hexDigit (b.toNat % 16)]

/-- A byte-string literal. -/
def byteLiteral (bytes : List UInt8) : String :=
  String.ofList ('b' :: '"' :: (bytes.flatMap literalByte ++ ['"']))

/-- The bytes in front of the value of a member. `opening` is the bracket after the colon. -/
def keyBytes (jsonName opening : String) : List UInt8 :=
  (((Buffer.empty.writeQuoted jsonName).writeByte (ascii ':')).writeRaw opening).toList

/-- The literal of the bytes in front of the value of a member. -/
def keyLiteral (jsonName opening : String) : String := byteLiteral (keyBytes jsonName opening)

end ProtoJson
