import ProtoJson.Number.Digits

/-!
# Integers of fixed width

The four integer kinds of a schema, their ranges and their decimal text.
-/

namespace ProtoJson

-- Powers are the core library's own, whatever other instances are in scope.
attribute [local instance (high)] instPowNat

/-- The integer kinds. -/
inductive IntegerKind where
  | int32
  | int64
  | uint32
  | uint64
  deriving DecidableEq, Repr

namespace IntegerKind

/-- The name of a kind in messages. -/
def name : IntegerKind → String
  | int32 => "int32"
  | int64 => "int64"
  | uint32 => "uint32"
  | uint64 => "uint64"

/-- Whether a kind has negative values. -/
def signed : IntegerKind → Bool
  | int32 | int64 => true
  | uint32 | uint64 => false

/-- The least value of a kind. -/
def least : IntegerKind → Int
  | int32 => -2 ^ (31 : Nat)
  | int64 => -2 ^ (63 : Nat)
  | uint32 | uint64 => 0

/-- The greatest value of a kind. -/
def greatest : IntegerKind → Int
  | int32 => 2 ^ (31 : Nat) - 1
  | int64 => 2 ^ (63 : Nat) - 1
  | uint32 => 2 ^ (32 : Nat) - 1
  | uint64 => 2 ^ (64 : Nat) - 1

/-- The integers that a kind can hold. -/
def Holds (kind : IntegerKind) (v : Int) : Prop := kind.least ≤ v ∧ v ≤ kind.greatest

instance (kind : IntegerKind) (v : Int) : Decidable (kind.Holds v) :=
  inferInstanceAs (Decidable (_ ∧ _))

/-- The value as an integer of the kind, if it is in range. -/
def fit? (kind : IntegerKind) (v : Int) : Option Int := if kind.Holds v then some v else none

/-- The number that one or more digits write. -/
def digits? (cs : List Char) : Option Nat :=
  if cs ≠ [] ∧ cs.all isDigit then some (ofLongDigits cs) else none

/-- An integer text is an optional plus, or a minus for the signed kinds, and one or more digits.
Leading zeros do not matter; a value out of range is refused. -/
def parse? (kind : IntegerKind) : List Char → Option Int
  | '+' :: cs => (digits? cs).bind fun n => kind.fit? n
  | '-' :: cs => if kind.signed then (digits? cs).bind fun n => kind.fit? (-n) else none
  | cs => (digits? cs).bind fun n => kind.fit? n

end IntegerKind

end ProtoJson
