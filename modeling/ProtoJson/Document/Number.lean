import ProtoJson.Document.Basic
import ProtoJson.Number.Decimal

/-!
# Numbers of a document

A number without fraction and exponent that 64 bits can hold is an integer. Any other is a 64-bit
float, computed in floating point from as many leading digits as 64 bits can hold and a power of
ten; it need not be the float nearest to what is written. Minus zero is a float.
-/

namespace ProtoJson

-- Powers are the core library's own, whatever other instances are in scope.
attribute [local instance (high)] instPowNat

/-! ## Arithmetic on unsigned floats -/

namespace BinaryFormat

/-- The product of two unsigned finite patterns. -/
def mul (fmt : BinaryFormat) (x y : Nat) : Nat :=
  fmt.round (fmt.units x * fmt.units y) (2 ^ (2 * fmt.unitExponent))

/-- The quotient of two unsigned finite patterns. -/
def div (fmt : BinaryFormat) (x y : Nat) : Nat := fmt.round (fmt.units x) (fmt.units y)

/-- The pattern nearest to a power of ten. -/
def powerOfTen (fmt : BinaryFormat) (e : Nat) : Nat := fmt.round (10 ^ e) 1

/-- Powers of ten up to this one are finite in 64 bits. -/
def greatestPower : Nat := 308

/-- A pattern divided by a power of ten, in steps that 64 bits can hold. -/
def shiftDown (x e : Nat) : Nat :=
  if e ≤ greatestPower then double.div x (double.powerOfTen e)
  else if x = 0 then 0
  else shiftDown (double.div x (double.powerOfTen greatestPower)) (e - greatestPower)
termination_by e
decreasing_by simp only [greatestPower] at *; omega

/-- A pattern multiplied by a power of ten. There is none if it would be infinite. -/
def shiftUp? (x e : Nat) : Option Nat :=
  if x = 0 then some 0
  else if e ≤ greatestPower then
    let y := double.mul x (double.powerOfTen e)
    if y = double.infinity then none else some y
  else none

end BinaryFormat

namespace NumberText

/-! ## Values -/

/-- The integer that is written, if there is neither fraction nor exponent. Minus zero is none. -/
def integer? (n : NumberText) : Option Int :=
  if n.fraction = [] ∧ n.exponent = none then
    let v := ofLongDigits n.whole
    if n.negative then if v = 0 then none else some (-v) else some v
  else none

/-- The value that `n` stands for if it is an integer. -/
def wideInteger? (n : NumberText) : Option Int :=
  n.integer?.filter fun v => -2 ^ (63 : Nat) ≤ v ∧ v ≤ 2 ^ (64 : Nat) - 1

/-- The number that 64 bits can hold after taking as many digits as they can, and the digits left
over. -/
def takeDigits (n : Nat) : List Char → Nat × List Char
  | [] => (n, [])
  | d :: ds =>
    if n * 10 + digitValue d < 2 ^ (64 : Nat) then takeDigits (n * 10 + digitValue d) ds
    else (n, d :: ds)

/-- An exponent text. Past 31 bits only its sign counts. -/
def exponentValue? : Option (Bool × List Char) → Option Int
  | none => some 0
  | some (negative, ds) =>
    if ofLongDigits ds < 2 ^ (31 : Nat) then
      some (if negative then -ofLongDigits ds else ofLongDigits ds)
    else none

/-- The unsigned pattern of the float that a number stands for. There is none if it would be
infinite. -/
def magnitude? (n : NumberText) : Option Nat :=
  let (taken, wholeLeft) := takeDigits 0 n.whole
  let (taken, fractionLeft) := takeDigits taken n.fraction
  let start : Int := wholeLeft.length - (n.fraction.length - fractionLeft.length : Nat)
  match exponentValue? n.exponent with
  | some e =>
    let x := BinaryFormat.double.round taken 1
    match start + e with
    | .ofNat e => BinaryFormat.shiftUp? x e
    | .negSucc e => some (BinaryFormat.shiftDown x (e + 1))
  | none => if taken = 0 ∨ n.exponent.any (·.1) then some 0 else none

/-! ## Text -/

/-- The text of an exponent. It always has a sign. -/
def exponentText (e : Int) : List Char :=
  if e < 0 then 'e' :: decimalInt e else 'e' :: '+' :: decimalInt e

/-- The text of a float: positional with up to sixteen digits before the point or up to four zeros
after it, and otherwise one digit, a point with further digits, and an exponent. -/
def floatText (negative : Bool) (magnitude : Nat) : List Char :=
  let sign := if negative then ['-'] else []
  if magnitude = 0 then sign ++ "0.0".toList
  else
    let d := (BinaryFormat.double.shortest .even magnitude).trim
    let ds := decimal d.digits
    let point : Int := ds.length + d.exponent
    sign ++
      if 0 ≤ d.exponent ∧ point ≤ 16 then ds ++ List.replicate d.exponent.toNat '0' ++ ['.', '0']
      else if 0 < point ∧ point ≤ 16 then
        ds.take point.toNat ++ '.' :: ds.drop point.toNat
      else if -5 < point ∧ point ≤ 0 then
        '0' :: '.' :: (List.replicate point.natAbs '0' ++ ds)
      else
        ds.take 1 ++ (if ds.length = 1 then [] else '.' :: ds.drop 1) ++ exponentText (point - 1)

/-- The text of the value that a number stands for. There is none if it is too large. -/
def text? (n : NumberText) : Option (List Char) :=
  match n.wideInteger? with
  | some v => some (decimalInt v)
  | none => n.magnitude?.map (floatText n.negative)

end NumberText

end ProtoJson
