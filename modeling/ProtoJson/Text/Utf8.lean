import ProtoJson.Text.Ascii

/-!
# UTF-8

Encoding characters as bytes, and cutting any byte string into characters and malformed pieces.
A malformed piece is as long as it can be while still starting a well-formed sequence, so
`lossy` replaces each such piece by one U+FFFD.
-/

namespace ProtoJson.Utf8

/-- U+FFFD, which stands for what cannot be decoded. -/
def replacement : Char := '\uFFFD'

/-- The UTF-8 sequence of a character. -/
def encodeChar (c : Char) : List UInt8 :=
  let n := c.toNat
  if n < 0x80 then [n.toUInt8]
  else if n < 0x800 then [(0xC0 + n / 64).toUInt8, (0x80 + n % 64).toUInt8]
  else if n < 0x10000 then
    [(0xE0 + n / 4096).toUInt8, (0x80 + n / 64 % 64).toUInt8, (0x80 + n % 64).toUInt8]
  else
    [(0xF0 + n / 262144).toUInt8, (0x80 + n / 4096 % 64).toUInt8, (0x80 + n / 64 % 64).toUInt8,
      (0x80 + n % 64).toUInt8]

/-- The UTF-8 form of a text. -/
def encode (cs : List Char) : List UInt8 := cs.flatMap encodeChar

/-- The bytes of a string. -/
def ofString (s : String) : List UInt8 := encode s.toList

/-- A piece of a byte string: one character, or bytes that start no character. -/
inductive Piece where
  | scalar (c : Char)
  | malformed (bytes : List UInt8)
  deriving DecidableEq, Repr

/-- The bytes `0x80` to `0xBF`, which continue a sequence. -/
def isTail (b : UInt8) : Bool := 0x80 ≤ b && b ≤ 0xBF

/-- The bytes that may follow the first byte `a` of a sequence. Overlong forms, surrogates and
values past U+10FFFF are excluded here. -/
def isSecond (a b : UInt8) : Bool :=
  if a == 0xE0 then 0xA0 ≤ b && b ≤ 0xBF
  else if a == 0xED then 0x80 ≤ b && b ≤ 0x9F
  else if a == 0xF0 then 0x90 ≤ b && b ≤ 0xBF
  else if a == 0xF4 then 0x80 ≤ b && b ≤ 0x8F
  else isTail b

/-- The six payload bits of a continuation byte. -/
def tailBits (b : UInt8) : Nat := b.toNat - 0x80

/-- The piece that starts with the byte `a`, and what follows it. -/
def next (a : UInt8) (r : List UInt8) : Piece × List UInt8 :=
  if a < 0x80 then (.scalar (Char.ofNat a.toNat), r)
  else if 0xC2 ≤ a && a ≤ 0xDF then
    match r with
    | b :: r₁ =>
      if isTail b then (.scalar (Char.ofNat ((a.toNat - 0xC0) * 64 + tailBits b)), r₁)
      else (.malformed [a], r)
    | [] => (.malformed [a], r)
  else if 0xE0 ≤ a && a ≤ 0xEF then
    match r with
    | b :: r₁ =>
      if isSecond a b then
        match r₁ with
        | c :: r₂ =>
          if isTail c then
            (.scalar (Char.ofNat ((a.toNat - 0xE0) * 4096 + tailBits b * 64 + tailBits c)), r₂)
          else (.malformed [a, b], r₁)
        | [] => (.malformed [a, b], r₁)
      else (.malformed [a], r)
    | [] => (.malformed [a], r)
  else if 0xF0 ≤ a && a ≤ 0xF4 then
    match r with
    | b :: r₁ =>
      if isSecond a b then
        match r₁ with
        | c :: r₂ =>
          if isTail c then
            match r₂ with
            | d :: r₃ =>
              if isTail d then
                (.scalar (Char.ofNat ((a.toNat - 0xF0) * 262144 + tailBits b * 4096
                  + tailBits c * 64 + tailBits d)), r₃)
              else (.malformed [a, b, c], r₂)
            | [] => (.malformed [a, b, c], r₂)
          else (.malformed [a, b], r₁)
        | [] => (.malformed [a, b], r₁)
      else (.malformed [a], r)
    | [] => (.malformed [a], r)
  else (.malformed [a], r)

/-- A piece takes at least the byte it starts with. -/
theorem length_next_le (a : UInt8) (r : List UInt8) : (next a r).2.length ≤ r.length := by
  unfold next
  repeat' split
  all_goals simp
  all_goals omega

/-- All pieces of a byte string, in order. -/
def pieces : List UInt8 → List Piece
  | [] => []
  | a :: r => (next a r).1 :: pieces (next a r).2
termination_by bs => bs.length
decreasing_by
  have := length_next_le a r
  simp only [List.length_cons]
  omega

/-- The character a piece is, if it is one. -/
def Piece.scalar? : Piece → Option Char
  | .scalar c => some c
  | .malformed _ => none

/-- The text that the bytes encode, if they are well-formed throughout. -/
def decode? (bs : List UInt8) : Option (List Char) := (pieces bs).mapM Piece.scalar?

/-- The string that the bytes encode, if they are well-formed throughout. -/
def toString? (bs : List UInt8) : Option String := (decode? bs).map String.ofList

/-- The text of any byte string, each malformed piece read as one U+FFFD. -/
def lossy (bs : List UInt8) : List Char :=
  (pieces bs).map fun p => p.scalar?.getD replacement

end ProtoJson.Utf8
