import ProtoJson.Text.Ascii

/-!
# Base64

The standard alphabet with padding. `decode?` accepts exactly what `encode` writes: padding must be
present and the bits that no byte uses must be zero.
-/

namespace ProtoJson.Base64

/-- The character of a six-bit value. -/
def digit (n : Nat) : UInt8 :=
  if n < 26 then (65 + n).toUInt8
  else if n < 52 then (97 + (n - 26)).toUInt8
  else if n < 62 then (48 + (n - 52)).toUInt8
  else if n = 62 then ascii '+'
  else ascii '/'

/-- The six-bit value of a character. -/
def value? (b : UInt8) : Option Nat :=
  if ascii 'A' ≤ b && b ≤ ascii 'Z' then some (b.toNat - 65)
  else if ascii 'a' ≤ b && b ≤ ascii 'z' then some (b.toNat - 97 + 26)
  else if ascii '0' ≤ b && b ≤ ascii '9' then some (b.toNat - 48 + 52)
  else if b = ascii '+' then some 62
  else if b = ascii '/' then some 63
  else none

/-- Each three bytes become four characters; a shorter last group is padded. -/
def encode : List UInt8 → List UInt8
  | a :: b :: c :: r =>
    digit (a.toNat / 4) :: digit (a.toNat % 4 * 16 + b.toNat / 16)
      :: digit (b.toNat % 16 * 4 + c.toNat / 64) :: digit (c.toNat % 64) :: encode r
  | [a, b] =>
    [digit (a.toNat / 4), digit (a.toNat % 4 * 16 + b.toNat / 16), digit (b.toNat % 16 * 4),
      ascii '=']
  | [a] => [digit (a.toNat / 4), digit (a.toNat % 4 * 16), ascii '=', ascii '=']
  | [] => []

/-- The last group of four characters, which may be padded. -/
def lastGroup? (a b c d : UInt8) : Option (List UInt8) := do
  let a ← value? a
  let b ← value? b
  if c = ascii '=' then
    if d = ascii '=' && b % 16 = 0 then return [(a * 4 + b / 16).toUInt8] else none
  else
    let c ← value? c
    if d = ascii '=' then
      if c % 4 = 0 then return [(a * 4 + b / 16).toUInt8, (b % 16 * 16 + c / 4).toUInt8]
      else none
    else
      let d ← value? d
      return [(a * 4 + b / 16).toUInt8, (b % 16 * 16 + c / 4).toUInt8, (c % 4 * 64 + d).toUInt8]

/-- The bytes that a base64 text stands for. -/
def decode? : List UInt8 → Option (List UInt8)
  | [] => some []
  | [a, b, c, d] => lastGroup? a b c d
  | a :: b :: c :: d :: r => do
    let a ← value? a
    let b ← value? b
    let c ← value? c
    let d ← value? d
    let rest ← decode? r
    return (a * 4 + b / 16).toUInt8 :: (b % 16 * 16 + c / 4).toUInt8
      :: (c % 4 * 64 + d).toUInt8 :: rest
  | _ => none

/-- The length of the base64 form of `n` bytes. -/
def encodedLength (n : Nat) : Nat := (n + 2) / 3 * 4

end ProtoJson.Base64
