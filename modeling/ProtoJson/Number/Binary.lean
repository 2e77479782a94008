/-!
# Binary floating point

The interchange formats of IEEE 754 as bit patterns. The magnitude of a finite pattern is a multiple
`m * 2 ^ p` of the least positive value of its format, the *unit*; patterns without their sign are
ordered as the values they stand for, so rounding to a format is rounding to a natural number.
-/

namespace ProtoJson

-- Powers are the core library's own, whatever other instances are in scope.
attribute [local instance (high)] instPowNat

/-- A format: its fraction bits and its exponent bits. -/
structure BinaryFormat where
  fractionBits : Nat
  exponentBits : Nat
  deriving DecidableEq, Repr

namespace BinaryFormat

/-- The format of 32 bits. -/
def single : BinaryFormat := ⟨23, 8⟩

/-- The format of 64 bits. -/
def double : BinaryFormat := ⟨52, 11⟩

/-- The bits of a pattern. -/
def width (fmt : BinaryFormat) : Nat := 1 + fmt.exponentBits + fmt.fractionBits

/-- The unit is `2 ^ (-unitExponent)`. -/
def unitExponent (fmt : BinaryFormat) : Nat := 2 ^ (fmt.exponentBits - 1) - 2 + fmt.fractionBits

/-- The pattern of infinity without its sign. -/
def infinity (fmt : BinaryFormat) : Nat := (2 ^ fmt.exponentBits - 1) * 2 ^ fmt.fractionBits

/-- The significand of an unsigned finite pattern. -/
def significand (fmt : BinaryFormat) (n : Nat) : Nat :=
  if n < 2 ^ (fmt.fractionBits + 1) then n
  else n % 2 ^ fmt.fractionBits + 2 ^ fmt.fractionBits

/-- The exponent of an unsigned finite pattern, counted from the unit. -/
def scale (fmt : BinaryFormat) (n : Nat) : Nat := n / 2 ^ fmt.fractionBits - 1

/-- An unsigned finite pattern as a multiple of the unit. -/
def units (fmt : BinaryFormat) (n : Nat) : Nat := fmt.significand n * 2 ^ fmt.scale n

/-- The integer nearest to `a / d`; a half goes to the even neighbour. -/
def nearestEven (a d : Nat) : Nat :=
  let q := a / d
  let r := a % d
  if 2 * r < d ∨ (2 * r = d ∧ q % 2 = 0) then q else q + 1

/-- The unsigned pattern nearest to `num / den`, with ties to the even pattern. What rounds past
the greatest finite value becomes infinity. -/
def round (fmt : BinaryFormat) (num den : Nat) : Nat :=
  let a := num * 2 ^ fmt.unitExponent
  let p := Nat.log2 (a / den) - fmt.fractionBits
  min fmt.infinity (p * 2 ^ fmt.fractionBits + nearestEven a (den * 2 ^ p))

end BinaryFormat

/-- A bit pattern of a format. -/
structure Binary (fmt : BinaryFormat) where
  bits : BitVec fmt.width
  deriving DecidableEq, Repr

/-- A number of 32 bits. -/
abbrev Binary32 := Binary .single

/-- A number of 64 bits. -/
abbrev Binary64 := Binary .double

namespace Binary

variable {fmt : BinaryFormat}

/-- The pattern without its sign. -/
def magnitude (x : Binary fmt) : Nat := x.bits.toNat % 2 ^ (fmt.width - 1)

/-- Whether the sign bit is set. -/
def isNegative (x : Binary fmt) : Bool := 2 ^ (fmt.width - 1) ≤ x.bits.toNat

/-- The pattern of a sign and a magnitude. -/
def ofMagnitude (negative : Bool) (n : Nat) : Binary fmt :=
  ⟨BitVec.ofNat _ ((if negative then 2 ^ (fmt.width - 1) else 0) + n)⟩

/-- Positive zero. -/
def zero : Binary fmt := ⟨0⟩

/-- Whether the value is a zero of either sign. -/
def isZero (x : Binary fmt) : Bool := x.magnitude == 0

/-- Whether the value is a number, neither infinite nor NaN. -/
def isFinite (x : Binary fmt) : Bool := x.magnitude < fmt.infinity

/-- Whether the pattern stands for no number at all. -/
def isNaN (x : Binary fmt) : Bool := fmt.infinity < x.magnitude

end Binary

end ProtoJson
