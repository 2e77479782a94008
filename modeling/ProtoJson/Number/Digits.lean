/-!
# Decimal digits

Writing a natural number in decimal and reading it back.
-/

namespace ProtoJson

-- Powers are the core library's own, whatever other instances are in scope.
attribute [local instance (high)] instPowNat

/-- Whether a character is one of the ten digits. -/
def isDigit (c : Char) : Bool := '0' ≤ c && c ≤ '9'

/-- The digit of `n < 10`. -/
def digitChar (n : Nat) : Char := Char.ofNat (48 + n)

/-- The value of a digit. -/
def digitValue (c : Char) : Nat := c.toNat - 48

/-- The decimal digits of a number, most significant first and without leading zeros. -/
def decimal (n : Nat) : List Char :=
  if n < 10 then [digitChar n] else decimal (n / 10) ++ [digitChar (n % 10)]
termination_by n
decreasing_by omega

/-- The number that a list of digits writes. -/
def ofDigits (ds : List Char) : Nat := ds.foldl (fun n d => n * 10 + digitValue d) 0

/-- The number that a list of digits writes, computed from its two halves, which is quicker for
long lists. -/
def ofLongDigits (ds : List Char) : Nat :=
  if ds.length ≤ 32 then ofDigits ds
  else
    let front := ds.take (ds.length / 2)
    let back := ds.drop (ds.length / 2)
    ofLongDigits front * 10 ^ back.length + ofLongDigits back
termination_by ds.length
decreasing_by
  · simp only [List.length_take]
    omega
  · simp only [List.length_drop]
    omega

/-- The decimal form of an integer, with a minus in front if it is negative. -/
def decimalInt (v : Int) : List Char :=
  if v < 0 then '-' :: decimal v.natAbs else decimal v.natAbs

/-- The digits of a front count for as many powers of ten as digits follow. -/
theorem ofDigits_append (xs ys : List Char) :
    ofDigits (xs ++ ys) = ofDigits xs * 10 ^ ys.length + ofDigits ys := by
  have h : ∀ (n : Nat) (ds : List Char), ds.foldl (fun n d => n * 10 + digitValue d) n =
      n * 10 ^ ds.length + ofDigits ds := by
    intro n ds
    induction ds generalizing n with
    | nil => simp [ofDigits]
    | cons d ds ih =>
      simp only [ofDigits, List.foldl_cons, List.length_cons] at ih ⊢
      rw [ih, ih (0 * 10 + digitValue d), Nat.add_mul, Nat.pow_succ, Nat.mul_assoc,
        Nat.mul_comm 10 (10 ^ ds.length), Nat.zero_mul, Nat.zero_add, Nat.add_assoc]
  rw [ofDigits, List.foldl_append]
  exact h _ ys

/-- Halving does not change the number. -/
@[simp] theorem ofLongDigits_eq (ds : List Char) : ofLongDigits ds = ofDigits ds := by
  fun_induction ofLongDigits ds with
  | case1 => rfl
  | case2 ds _ front back ihFront ihBack =>
    rw [ihFront, ihBack, ← ofDigits_append, List.take_append_drop]

theorem digitValue_digitChar : ∀ n < 10, digitValue (digitChar n) = n := by decide

/-- Reading what `decimal` writes gives the number back. -/
theorem ofDigits_decimal (n : Nat) : ofDigits (decimal n) = n := by
  induction n using Nat.strongRecOn with
  | ind n ih =>
    rw [decimal]
    split
    · next h => simp [ofDigits, digitValue_digitChar n h]
    · have ih' : (decimal (n / 10)).foldl (fun n d => n * 10 + digitValue d) 0 = n / 10 :=
        ih (n / 10) (by omega)
      simp only [ofDigits, List.foldl_append, ih', List.foldl_cons, List.foldl_nil]
      rw [digitValue_digitChar _ (Nat.mod_lt _ (by decide))]
      omega

end ProtoJson
