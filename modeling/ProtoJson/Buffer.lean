import ProtoJson.Base64
import ProtoJson.Number.Decimal
import ProtoJson.Text.Escape
import ProtoJson.Text.Utf8

/-!
# Output buffer

A growing byte buffer with writers for the pieces of a JSON text. The capacity changes only when a
write needs more room, and then to twice the length that is needed. Sequences are written with a
comma after every item; `dropComma` takes the last one back.
-/

namespace ProtoJson

/-- The bytes written so far and the room that is set aside for them. -/
structure Buffer where
  bytes : Array UInt8 := #[]
  capacity : Nat := 0
  deriving DecidableEq, Repr

namespace Buffer

/-- An empty buffer without room. -/
def empty : Buffer := {}

/-- An empty buffer with room for `n` bytes. -/
def withCapacity (n : Nat) : Buffer := ⟨#[], n⟩

/-- The number of bytes written. -/
def size (b : Buffer) : Nat := b.bytes.size

/-- The content. -/
def toList (b : Buffer) : List UInt8 := b.bytes.toList

/-- Makes room for `n` more bytes. -/
def reserve (b : Buffer) (n : Nat) : Buffer :=
  if b.size + n ≤ b.capacity then b else { b with capacity := 2 * (b.size + n) }

/-- Appends bytes for which there is room already. -/
def append (b : Buffer) (bytes : List UInt8) : Buffer :=
  { b with bytes := b.bytes ++ bytes }

/-- Appends bytes. -/
def write (b : Buffer) (bytes : List UInt8) : Buffer := (b.reserve bytes.length).append bytes

/-- Appends one byte. -/
def writeByte (b : Buffer) (byte : UInt8) : Buffer := b.write [byte]

/-- Appends a text as it is. -/
def writeChars (b : Buffer) (cs : List Char) : Buffer := b.write (Utf8.encode cs)

/-- Appends a string as it is. -/
def writeRaw (b : Buffer) (s : String) : Buffer := b.writeChars s.toList

/-- Appends `true` or `false`. -/
def writeBool (b : Buffer) (v : Bool) : Buffer := b.writeRaw (if v then "true" else "false")

/-- Appends an integer in decimal. -/
def writeInteger (b : Buffer) (v : Int) : Buffer := b.writeChars (decimalInt v)

/-- Appends the shortest decimal that reads back as `v`, without an exponent. -/
def writeBinary {fmt : BinaryFormat} (b : Buffer) (v : Binary fmt) : Buffer := b.writeChars v.text

/-- Appends a base64 text in quotes. All its room is made at once. -/
def writeBase64 (b : Buffer) (bytes : List UInt8) : Buffer :=
  let b := b.reserve (Base64.encodedLength bytes.length + 2)
  ((b.append [ascii '"']).write (Base64.encode bytes)).append [ascii '"']

/-- Appends UTF-8 text in escaped form: runs of bytes that stand for themselves are written
together. `run` holds the current one in reverse. The line separators U+2028 and U+2029 are told by
the three bytes of their sequences, and the last digit of their escapes is a write of its own. -/
def writeRuns (b : Buffer) (run : List UInt8) : List UInt8 → Buffer
  | [] => b.write run.reverse
  | 0xE2 :: 0x80 :: 0xA8 :: r =>
    (((b.write run.reverse).writeRaw "\\u202").writeByte (ascii '8')).writeRuns [] r
  | 0xE2 :: 0x80 :: 0xA9 :: r =>
    (((b.write run.reverse).writeRaw "\\u202").writeByte (ascii '9')).writeRuns [] r
  | x :: r =>
    if x < 0x80 && !Escape.isPlainByte x then
      ((b.write run.reverse).write (Escape.escapeByte x)).writeRuns [] r
    else b.writeRuns (x :: run) r

/-- Appends a text in escaped form, without quotes. -/
def writeEscapedChars (b : Buffer) (cs : List Char) : Buffer :=
  (b.reserve (Utf8.encode cs).length).writeRuns [] (Utf8.encode cs)

/-- Appends a string in escaped form, without quotes. -/
def writeEscaped (b : Buffer) (s : String) : Buffer := b.writeEscapedChars s.toList

/-- Appends the pieces of a byte string in escaped form: each byte outside a character becomes an
escaped U+FFFD. `run` holds the characters since the last such byte, in reverse. -/
def writePieces (b : Buffer) (run : List Char) : List Utf8.Piece → Buffer
  | [] => b.writeEscapedChars run.reverse
  | .scalar c :: ps => b.writePieces (c :: run) ps
  | .malformed bytes :: ps =>
    (bytes.foldl (fun b _ => b.writeRaw "\\ufffd") (b.writeEscapedChars run.reverse)).writePieces
      [] ps

/-- Appends any byte string in escaped form, without quotes. -/
def writeEscapedBytes (b : Buffer) (bytes : List UInt8) : Buffer :=
  b.writePieces [] (Utf8.pieces bytes)

/-- Appends a string in escaped form and in quotes. -/
def writeQuoted (b : Buffer) (s : String) : Buffer :=
  ((b.writeByte (ascii '"')).writeEscaped s).writeByte (ascii '"')

/-- Takes back the comma that the last item of a sequence left. -/
def dropComma (b : Buffer) : Buffer :=
  if 2 ≤ b.size ∧ b.bytes.back? = some (ascii ',') then { b with bytes := b.bytes.pop } else b

/-- Forgets the content and keeps the room. -/
def reset (b : Buffer) : Buffer := { b with bytes := #[] }

end Buffer

end ProtoJson
