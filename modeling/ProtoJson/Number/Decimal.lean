import ProtoJson.Number.Binary
import ProtoJson.Number.Digits

/-!
# Floating point in decimal

Reading a decimal text as the nearest value of a binary format, and writing a value with the fewest
digits that read back as it. All arithmetic is exact; only exponents past `exponentBound` lose
digits, which matters to texts with as many zeros as that. A value is always written positionally:
large and small ones get zeros instead of an exponent.
-/

namespace ProtoJson

-- Powers are the core library's own, whatever other instances are in scope.
attribute [local instance (high)] instPowNat

/-- The number `digits * 10 ^ exponent`. -/
structure Decimal where
  digits : Nat
  exponent : Int
  deriving DecidableEq, Repr

namespace Decimal

/-- Without trailing zeros in the digits. -/
def trim (d : Decimal) : Decimal :=
  if d.digits = 0 ∨ d.digits % 10 ≠ 0 then d
  else trim ⟨d.digits / 10, d.exponent + 1⟩
termination_by d.digits
decreasing_by omega

/-- The positional form: digits, and a point if the exponent is negative. -/
def text (d : Decimal) : List Char :=
  let ds := decimal d.digits
  match d.exponent with
  | .ofNat zeros => ds ++ List.replicate zeros '0'
  | .negSucc n =>
    let places := n + 1
    if places < ds.length then
      ds.take (ds.length - places) ++ '.' :: ds.drop (ds.length - places)
    else '0' :: '.' :: (List.replicate (places - ds.length) '0' ++ ds)

/-- The unsigned pattern of a format nearest to a decimal. Exponents out of the reach of the format
are settled without computing the power of ten. -/
def round (fmt : BinaryFormat) (d : Decimal) : Nat :=
  let reach : Int := 2 ^ fmt.exponentBits
  if d.digits = 0 then 0
  else if reach < d.exponent then fmt.infinity
  else if d.exponent + (Nat.log2 d.digits + 1 : Nat) < -reach then 0
  else
    match d.exponent with
    | .ofNat e => fmt.round (d.digits * 10 ^ e) 1
    | .negSucc e => fmt.round d.digits (10 ^ (e + 1))

end Decimal

/-! ## Reading -/

/-- An optional sign: whether it is a minus, and what follows. -/
def splitSign : List Char → Bool × List Char
  | '-' :: cs => (true, cs)
  | '+' :: cs => (false, cs)
  | cs => (false, cs)

/-- An exponent that has come to this size takes no more digits. -/
def exponentBound : Nat := 2 ^ (16 : Nat)

/-- The size of an exponent. Any digits after it has reached the bound are ignored. -/
def exponentSize (ds : List Char) : Nat :=
  ds.foldl (fun e d => if e < exponentBound then e * 10 + digitValue d else e) 0

/-- The exponent part of a number text, which may be empty. -/
def exponent? : List Char → Option Int
  | [] => some 0
  | c :: cs =>
    if c = 'e' ∨ c = 'E' then
      let (negative, ds) := splitSign cs
      if ds ≠ [] ∧ ds.all isDigit then
        some (if negative then -(exponentSize ds : Int) else exponentSize ds)
      else none
    else none

/-- The digits after the point, if there is one, and what follows them. -/
def splitFraction : List Char → List Char × List Char
  | '.' :: cs => cs.span isDigit
  | cs => ([], cs)

/-- A number text without its sign: digits with an optional point, at least one digit in all, and an
optional exponent. -/
def Decimal.parse? (cs : List Char) : Option Decimal :=
  let (whole, rest) := cs.span isDigit
  let (fraction, rest) := splitFraction rest
  if whole = [] ∧ fraction = [] then none
  else (exponent? rest).map fun e => ⟨ofLongDigits (whole ++ fraction), e - fraction.length⟩

/-- The value nearest to what a number text writes. A value too large for the format reads as
infinity. -/
def Binary.parse? (fmt : BinaryFormat) (cs : List Char) : Option (Binary fmt) :=
  let (negative, cs) := splitSign cs
  (Decimal.parse? cs).map fun d => .ofMagnitude negative (d.round fmt)

/-! ## Writing -/

/-- Which of two decimals at the same distance is taken: the greater, or the one whose last digit is
even. -/
inductive DigitTie where
  | greater
  | even
  deriving DecidableEq, Repr

namespace BinaryFormat

/-- So many digits tell any two values of the format apart. -/
def maxDigits (fmt : BinaryFormat) : Nat := 2 + (fmt.fractionBits + 1) * 30103 / 100000

/-- The `k` with `10 ^ (k - 1) ≤ num / den < 10 ^ k`. -/
def decimalOrder (num den : Nat) : Int :=
  if den ≤ num then (decimal (num / den)).length
  else 1 - (decimal ((den - 1) / num)).length

/-- Of the two multiples of `10 ^ exponent` around `num / den`, the nearest that reads as the
pattern `n`. -/
def onGrid? (fmt : BinaryFormat) (tie : DigitTie) (n num den : Nat) (exponent : Int) :
    Option Decimal :=
  let (a, d) := match exponent with
    | .ofNat e => (num, den * 10 ^ e)
    | .negSucc e => (num * 10 ^ (e + 1), den)
  let lower : Decimal := ⟨a / d, exponent⟩
  let upper : Decimal := ⟨a / d + 1, exponent⟩
  let down := 2 * (a % d) < d ∨ (2 * (a % d) = d ∧ tie = .even ∧ a / d % 2 = 0)
  let (near, far) := if down then (lower, upper) else (upper, lower)
  if near.round fmt = n then some near
  else if far.round fmt = n then some far
  else none

/-- The decimal with the fewest digits that reads as the unsigned finite pattern `n`. -/
def shortest (fmt : BinaryFormat) (tie : DigitTie) (n : Nat) : Decimal :=
  let num := fmt.units n
  let den := 2 ^ fmt.unitExponent
  let order := decimalOrder num den
  let found := (List.range fmt.maxDigits).findSome? fun (i : Nat) =>
    fmt.onGrid? tie n num den (order - (i + 1))
  found.getD ⟨num * 5 ^ fmt.unitExponent, -fmt.unitExponent⟩

end BinaryFormat

/-- The text of a value. NaN and the infinities have names of their own. -/
def Binary.text {fmt : BinaryFormat} (x : Binary fmt) : List Char :=
  if x.isNaN then "NaN".toList
  else
    let digits :=
      if x.magnitude = fmt.infinity then "inf".toList
      else if x.magnitude = 0 then ['0']
      else (fmt.shortest .greater x.magnitude).trim.text
    if x.isNegative then '-' :: digits else digits

end ProtoJson
