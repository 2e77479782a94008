import Mathlib.Algebra.Order.Field.Power
import Mathlib.Tactic.NormNum
import ProtoJson.Number.Decimal
import ProtoJson.Proofs.Number.Rounding

/-!
# Decimals and their nearest patterns

`Decimal.round` depends only on the number that a decimal stands for, so the decimals that are
written for a pattern read as the same pattern again.
-/

namespace ProtoJson

namespace BinaryFormat

/-- A format whose numbers all lie between the exponents that `Decimal.round` leaves aside. -/
structure IsInterchange (fmt : BinaryFormat) : Prop where
  fraction_pos : fmt.fractionBits ≠ 0
  two_le : 2 ≤ fmt.exponentBits
  fraction_le : fmt.fractionBits ≤ 2 ^ fmt.exponentBits

theorem isInterchange_single : IsInterchange .single := ⟨by decide, by decide, by decide⟩

theorem isInterchange_double : IsInterchange .double := ⟨by decide, by decide, by decide⟩

variable {fmt : BinaryFormat}

theorem two_pow_exponentBits (h : fmt.IsInterchange) :
    2 ^ fmt.exponentBits = 2 * 2 ^ (fmt.exponentBits - 1) ∧ 2 ≤ 2 ^ (fmt.exponentBits - 1) := by
  have h2 := h.two_le
  constructor
  · rw [← Nat.pow_succ']
    congr 1
    omega
  · calc 2 = 2 ^ 1 := rfl
      _ ≤ 2 ^ (fmt.exponentBits - 1) := Nat.pow_le_pow_right (by decide) (by omega)

/-- Infinity comes after numbers that are less than a power of ten which no exponent of the format
reaches. -/
theorem value_infinity_le (h : fmt.IsInterchange) :
    fmt.value fmt.infinity ≤ 10 ^ 2 ^ fmt.exponentBits := by
  obtain ⟨hdouble, htwo⟩ := two_pow_exponentBits h
  have hinf : fmt.infinity
      = (2 ^ fmt.exponentBits - 2 + 1) * 2 ^ fmt.fractionBits + 0 := by
    rw [infinity, Nat.add_zero,
      show 2 ^ fmt.exponentBits - 2 + 1 = 2 ^ fmt.exponentBits - 1 by omega]
  have hunits : fmt.units fmt.infinity ≤ 10 ^ 2 ^ fmt.exponentBits * 2 ^ fmt.unitExponent := by
    rw [hinf, units_add (Nat.two_pow_pos _), Nat.add_zero, Nat.mul_comm]
    apply Nat.mul_le_mul
    · calc 2 ^ (2 ^ fmt.exponentBits - 2) ≤ 2 ^ 2 ^ fmt.exponentBits :=
            Nat.pow_le_pow_right (by decide) (Nat.sub_le _ _)
        _ ≤ 10 ^ 2 ^ fmt.exponentBits := Nat.pow_le_pow_left (by decide) _
    · apply Nat.pow_le_pow_right (by decide)
      rw [unitExponent]
      omega
  rw [value, div_le_iff₀ (by positivity)]
  exact_mod_cast hunits

/-- Half of the least value is more than a power of ten which no exponent of the format reaches. -/
theorem two_mul_le_value_one (h : fmt.IsInterchange) :
    2 * (10 ^ 2 ^ fmt.exponentBits)⁻¹ ≤ fmt.value 1 := by
  obtain ⟨hdouble, htwo⟩ := two_pow_exponentBits h
  have hfrac := h.fraction_le
  have hone : fmt.units 1 = 1 :=
    units_of_lt (Nat.one_lt_two_pow (Nat.succ_ne_zero _))
  have hpow : 2 * 2 ^ fmt.unitExponent ≤ 10 ^ 2 ^ fmt.exponentBits := by
    calc 2 * 2 ^ fmt.unitExponent = 2 ^ (fmt.unitExponent + 1) := (Nat.pow_succ').symm
      _ ≤ 2 ^ (3 * 2 ^ fmt.exponentBits) := by
        apply Nat.pow_le_pow_right (by decide)
        rw [unitExponent]
        omega
      _ = 8 ^ 2 ^ fmt.exponentBits := by rw [Nat.pow_mul]
      _ ≤ 10 ^ 2 ^ fmt.exponentBits := Nat.pow_le_pow_left (by decide) _
  have hpow' : (2 * 2 ^ fmt.unitExponent : ℚ) ≤ 10 ^ 2 ^ fmt.exponentBits := by exact_mod_cast hpow
  rw [value, hone, Nat.cast_one, le_div_iff₀ (by positivity), ← div_eq_mul_inv, div_mul_eq_mul_div,
    div_le_one (by positivity)]
  exact hpow'

theorem value_zero (fmt : BinaryFormat) : fmt.value 0 = 0 := by
  rw [value, units_of_lt (Nat.two_pow_pos _)]
  simp

/-- What is not below infinity is nearest to it. -/
theorem isNearest_infinity {x : ℚ} (h : fmt.value fmt.infinity ≤ x) :
    fmt.IsNearest x fmt.infinity := by
  refine ⟨Nat.le_refl _, fun m hm hne => .inl ?_⟩
  have hlt : fmt.value m < fmt.value fmt.infinity :=
    value_strictMono fmt (Nat.lt_of_le_of_ne hm hne)
  rw [abs_of_nonneg (by linarith), abs_of_nonneg (by linarith)]
  linarith

/-- What is less than half of the least value is nearest to zero. -/
theorem isNearest_zero {x : ℚ} (h0 : 0 ≤ x) (h : 2 * x < fmt.value 1) : fmt.IsNearest x 0 := by
  refine ⟨Nat.zero_le _, fun m _ hne => .inl ?_⟩
  have hm : fmt.value 1 ≤ fmt.value m := (value_strictMono fmt).monotone (Nat.pos_of_ne_zero hne)
  rw [value_zero, sub_zero, abs_of_nonneg h0, abs_sub_comm, abs_of_nonneg (by linarith)]
  linarith

end BinaryFormat

namespace Decimal

variable {fmt : BinaryFormat}

/-- The number that a decimal stands for. -/
def value (d : Decimal) : ℚ := d.digits * 10 ^ d.exponent

theorem value_ofNat (digits e : Nat) :
    (⟨digits, Int.ofNat e⟩ : Decimal).value = ((digits * 10 ^ e : Nat) : ℚ) / (1 : Nat) := by
  simp [value]

theorem value_negSucc (digits e : Nat) :
    (⟨digits, Int.negSucc e⟩ : Decimal).value = (digits : ℚ) / (10 ^ (e + 1) : Nat) := by
  simp [value, zpow_negSucc, div_eq_mul_inv]

/-- A decimal with a digit is as large as its power of ten. -/
theorem zpow_le_value {d : Decimal} (h : d.digits ≠ 0) : (10 : ℚ) ^ d.exponent ≤ d.value := by
  have hone : (1 : ℚ) ≤ d.digits := by exact_mod_cast Nat.one_le_iff_ne_zero.2 h
  rw [value]
  exact le_mul_of_one_le_left (by positivity) hone

/-- A decimal has no more digits than its integer has bits, which bounds it by a power of ten. -/
theorem value_lt_zpow (d : Decimal) :
    d.value < (10 : ℚ) ^ (d.exponent + (Nat.log2 d.digits + 1 : Nat)) := by
  have hlt : d.digits < 10 ^ (Nat.log2 d.digits + 1) :=
    (Nat.lt_log2_self (n := d.digits)).trans_le (Nat.pow_le_pow_left (by decide) _)
  have hdigits : (d.digits : ℚ) < 10 ^ (Nat.log2 d.digits + 1) := by exact_mod_cast hlt
  calc d.value < 10 ^ (Nat.log2 d.digits + 1) * 10 ^ d.exponent :=
        mul_lt_mul_of_pos_right hdigits (by positivity)
    _ = (10 : ℚ) ^ (d.exponent + (Nat.log2 d.digits + 1 : Nat)) := by
      rw [zpow_add₀ (by norm_num), zpow_natCast, mul_comm]

/-- A decimal is rounded to the nearest pattern. -/
theorem isNearest_round (h : fmt.IsInterchange) (d : Decimal) :
    fmt.IsNearest d.value (d.round fmt) := by
  have hten : (1 : ℚ) ≤ 10 := by norm_num
  -- Out of the reach of the format, the result is certain without the power of ten.
  rw [round]
  split
  · next h0 =>
    have hv : d.value = fmt.value 0 := by rw [value, h0, BinaryFormat.value_zero]; simp
    rw [hv]
    exact BinaryFormat.isNearest_value (Nat.zero_le _)
  · next h0 =>
    split
    · next hbig =>
      apply BinaryFormat.isNearest_infinity
      calc fmt.value fmt.infinity ≤ 10 ^ 2 ^ fmt.exponentBits :=
            BinaryFormat.value_infinity_le h
        _ = (10 : ℚ) ^ ((2 ^ fmt.exponentBits : Nat) : ℤ) := (zpow_natCast _ _).symm
        _ ≤ 10 ^ d.exponent := zpow_le_zpow_right₀ hten (by push_cast; exact hbig.le)
        _ ≤ d.value := zpow_le_value h0
    · split
      · next hsmall =>
        apply BinaryFormat.isNearest_zero
        · rw [value]
          positivity
        · have hval : d.value < (10 ^ 2 ^ fmt.exponentBits)⁻¹ := by
            calc d.value < (10 : ℚ) ^ (d.exponent + (Nat.log2 d.digits + 1 : Nat)) :=
                  value_lt_zpow d
              _ ≤ (10 : ℚ) ^ (-((2 ^ fmt.exponentBits : Nat) : ℤ)) :=
                zpow_le_zpow_right₀ hten (by push_cast at hsmall ⊢; exact hsmall.le)
              _ = (10 ^ 2 ^ fmt.exponentBits)⁻¹ := by rw [zpow_neg, zpow_natCast]
          have := BinaryFormat.two_mul_le_value_one h
          linarith
      · obtain ⟨digits, exponent⟩ := d
        cases exponent with
        | ofNat e =>
          rw [value_ofNat]
          exact BinaryFormat.isNearest_round h.fraction_pos _ (by decide)
        | negSucc e =>
          rw [value_negSucc]
          exact BinaryFormat.isNearest_round h.fraction_pos _ (Nat.pow_pos (by decide))

/-- Decimals of the same number are rounded alike. -/
theorem round_congr (h : fmt.IsInterchange) {d d' : Decimal} (hv : d.value = d'.value) :
    d.round fmt = d'.round fmt := by
  have h₁ := isNearest_round h d
  rw [hv] at h₁
  exact h₁.unique (isNearest_round h d')

/-- The decimal of a value is rounded to its pattern. -/
theorem round_eq (h : fmt.IsInterchange) {d : Decimal} {n : Nat} (hn : n ≤ fmt.infinity)
    (hv : d.value = fmt.value n) : d.round fmt = n := by
  have h₁ := isNearest_round h d
  rw [hv] at h₁
  exact h₁.unique (BinaryFormat.isNearest_value hn)

/-- Trailing zeros do not matter. -/
theorem value_trim (d : Decimal) : d.trim.value = d.value := by
  fun_induction trim d with
  | case1 d h => rfl
  | case2 d h ih =>
    rw [not_or, not_not] at h
    rw [ih, value, value, zpow_add_one₀ (by norm_num)]
    have hd : d.digits / 10 * 10 = d.digits := by omega
    calc ((d.digits / 10 : Nat) : ℚ) * (10 ^ d.exponent * 10)
        = ((d.digits / 10 * 10 : Nat) : ℚ) * 10 ^ d.exponent := by push_cast; ring
      _ = d.digits * 10 ^ d.exponent := by rw [hd]

end Decimal

namespace BinaryFormat

variable {fmt : BinaryFormat}

/-- A decimal is only taken if it reads as the pattern. -/
theorem round_of_onGrid? {tie : DigitTie} {n num den : Nat} {exponent : Int} {d : Decimal}
    (h : fmt.onGrid? tie n num den exponent = some d) : d.round fmt = n := by
  have key : ∀ near far : Decimal, (if near.round fmt = n then some near
      else if far.round fmt = n then some far else none) = some d → d.round fmt = n := by
    intro near far hd
    split at hd
    · cases hd
      assumption
    · split at hd
      · cases hd
        assumption
      · cases hd
  exact key _ _ h

/-- The shortest decimal of a pattern reads as the pattern. -/
theorem round_shortest (h : fmt.IsInterchange) (tie : DigitTie) {n : Nat} (hn : n ≤ fmt.infinity) :
    (fmt.shortest tie n).round fmt = n := by
  rw [shortest]
  cases hf : List.findSome? _ _ with
  | some d =>
    obtain ⟨i, -, hi⟩ := List.exists_of_findSome?_eq_some hf
    exact round_of_onGrid? hi
  | none =>
    apply Decimal.round_eq h hn
    rw [Option.getD_none, Decimal.value, value, zpow_neg, zpow_natCast]
    push_cast
    rw [show (10 : ℚ) = 2 * 5 by norm_num, mul_pow]
    field_simp

end BinaryFormat

namespace Binary

variable {fmt : BinaryFormat}

/-! ## Patterns with their sign -/

/-- The pattern of infinity leaves the sign bit free. -/
theorem infinity_lt (fmt : BinaryFormat) : fmt.infinity < 2 ^ (fmt.width - 1) := by
  rw [BinaryFormat.infinity, BinaryFormat.width,
    show 1 + fmt.exponentBits + fmt.fractionBits - 1 = fmt.exponentBits + fmt.fractionBits by omega,
    Nat.pow_add]
  apply Nat.mul_lt_mul_of_pos_right _ (Nat.two_pow_pos _)
  have := Nat.two_pow_pos fmt.exponentBits
  omega

theorem two_pow_width (fmt : BinaryFormat) : 2 ^ fmt.width = 2 * 2 ^ (fmt.width - 1) := by
  rw [← Nat.pow_succ']
  congr 1
  rw [BinaryFormat.width]
  omega

theorem toNat_ofMagnitude (negative : Bool) {n : Nat} (h : n < 2 ^ (fmt.width - 1)) :
    (ofMagnitude negative n : Binary fmt).bits.toNat
      = (if negative then 2 ^ (fmt.width - 1) else 0) + n := by
  rw [ofMagnitude, BitVec.toNat_ofNat, Nat.mod_eq_of_lt]
  rw [two_pow_width]
  split <;> omega

theorem magnitude_ofMagnitude (negative : Bool) {n : Nat} (h : n ≤ fmt.infinity) :
    (ofMagnitude negative n : Binary fmt).magnitude = n := by
  have hlt : n < 2 ^ (fmt.width - 1) := Nat.lt_of_le_of_lt h (infinity_lt fmt)
  rw [magnitude, toNat_ofMagnitude negative hlt]
  cases negative with
  | true => rw [if_pos rfl, Nat.add_mod_left, Nat.mod_eq_of_lt hlt]
  | false => rw [if_neg (by decide), Nat.zero_add, Nat.mod_eq_of_lt hlt]

theorem isNegative_ofMagnitude (negative : Bool) {n : Nat} (h : n ≤ fmt.infinity) :
    (ofMagnitude negative n : Binary fmt).isNegative = negative := by
  have hlt : n < 2 ^ (fmt.width - 1) := Nat.lt_of_le_of_lt h (infinity_lt fmt)
  rw [isNegative, toNat_ofMagnitude negative hlt]
  cases negative <;> simp [hlt]

private theorem sign_add_mod {b k : Nat} (h : b < 2 * k) :
    ((if decide (k ≤ b) = true then k else 0) + b % k) % (2 * k) = b := by
  by_cases hk : k ≤ b
  · have hmod : b % k = b - k := by rw [Nat.mod_eq_sub_mod hk, Nat.mod_eq_of_lt (by omega)]
    rw [if_pos (by simpa using hk), hmod, Nat.mod_eq_of_lt (by omega)]
    omega
  · have hmod : b % k = b := Nat.mod_eq_of_lt (by omega)
    rw [if_neg (by simpa using hk), hmod, Nat.mod_eq_of_lt (by omega)]
    omega

/-- A pattern is put together from its sign and its magnitude. -/
theorem ofMagnitude_eq (x : Binary fmt) : ofMagnitude x.isNegative x.magnitude = x := by
  have hx := x.bits.isLt
  rw [two_pow_width] at hx
  obtain ⟨bits⟩ := x
  rw [ofMagnitude, isNegative, magnitude, mk.injEq]
  apply BitVec.eq_of_toNat_eq
  rw [BitVec.toNat_ofNat, two_pow_width]
  exact sign_add_mod hx

end Binary

end ProtoJson
