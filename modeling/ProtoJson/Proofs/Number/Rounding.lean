import Mathlib.Algebra.Order.Field.Rat
import Mathlib.Algebra.Order.AbsoluteValue.Basic
import Mathlib.Algebra.Ring.Parity
import Mathlib.Order.Monotone.Basic
import Mathlib.Tactic.FieldSimp
import Mathlib.Tactic.Linarith
import Mathlib.Tactic.Positivity
import Mathlib.Tactic.Ring
import ProtoJson.Number.Binary

/-!
# Rounding to a binary format

`round` gives the pattern whose value is nearest, with ties to the even pattern. The patterns are
ordered as their values, so it is enough to compare with the two neighbours; and a nearest pattern
is the only one, so two fractions of the same value are rounded alike.
-/

namespace ProtoJson.BinaryFormat

variable {fmt : BinaryFormat}

/-! ## The values of patterns -/

theorem units_of_lt {n : Nat} (h : n < 2 ^ (fmt.fractionBits + 1)) : fmt.units n = n := by
  have hs : n / 2 ^ fmt.fractionBits < 2 := by
    rw [Nat.div_lt_iff_lt_mul (Nat.two_pow_pos _)]
    rw [Nat.pow_succ] at h
    omega
  have h0 : fmt.scale n = 0 := by
    unfold scale
    omega
  rw [units, significand, if_pos h, h0, Nat.pow_zero, Nat.mul_one]

/-- A pattern is a scale and a significand, put next to each other. -/
theorem scale_add {p q : Nat} (h : q < 2 ^ fmt.fractionBits) :
    fmt.scale ((p + 1) * 2 ^ fmt.fractionBits + q) = p := by
  have hq : q / 2 ^ fmt.fractionBits = 0 := Nat.div_eq_of_lt h
  rw [scale, Nat.add_comm, Nat.add_mul_div_right _ _ (Nat.two_pow_pos _), hq]
  omega

theorem units_add {p q : Nat} (h : q < 2 ^ fmt.fractionBits) :
    fmt.units ((p + 1) * 2 ^ fmt.fractionBits + q) = (2 ^ fmt.fractionBits + q) * 2 ^ p := by
  have hmod : ((p + 1) * 2 ^ fmt.fractionBits + q) % 2 ^ fmt.fractionBits = q := by
    rw [Nat.add_comm, Nat.add_mul_mod_self_right, Nat.mod_eq_of_lt h]
  rw [units, scale_add h, significand, hmod]
  split
  · next hlt =>
    have hp : p = 0 := by
      by_contra hne
      have : 2 * 2 ^ fmt.fractionBits ≤ (p + 1) * 2 ^ fmt.fractionBits :=
        Nat.mul_le_mul_right _ (by omega)
      rw [Nat.pow_succ] at hlt
      omega
    subst hp
    omega
  · rw [Nat.add_comm q]

/-- The significand may as well have come to the next power of two, and it may be any smaller number
where the scale is the least. -/
theorem units_mul_add {p q : Nat} (hle : q ≤ 2 ^ (fmt.fractionBits + 1))
    (hge : p ≠ 0 → 2 ^ fmt.fractionBits ≤ q) :
    fmt.units (p * 2 ^ fmt.fractionBits + q) = q * 2 ^ p := by
  rw [Nat.pow_succ] at hle
  by_cases hq : q < 2 ^ fmt.fractionBits
  · have hp : p = 0 := by
      by_contra hne
      exact absurd (hge hne) (by omega)
    subst hp
    rw [units_of_lt (by rw [Nat.pow_succ]; omega)]
    omega
  · by_cases hq' : q < 2 * 2 ^ fmt.fractionBits
    · have heq : p * 2 ^ fmt.fractionBits + q
          = (p + 1) * 2 ^ fmt.fractionBits + (q - 2 ^ fmt.fractionBits) := by
        rw [Nat.add_mul]
        omega
      rw [heq, units_add (by omega)]
      congr 1
      omega
    · have heq : p * 2 ^ fmt.fractionBits + q = (p + 1 + 1) * 2 ^ fmt.fractionBits + 0 := by
        rw [Nat.add_mul, Nat.add_mul]
        omega
      rw [heq, units_add (Nat.two_pow_pos _), Nat.pow_succ, Nat.add_zero,
        show q = 2 * 2 ^ fmt.fractionBits by omega]
      ring

/-- Every pattern has the form of `units_mul_add`. -/
theorem exists_eq_mul_add (fmt : BinaryFormat) (n : Nat) :
    ∃ p q, n = p * 2 ^ fmt.fractionBits + q ∧ q < 2 ^ (fmt.fractionBits + 1) ∧
      (p ≠ 0 → 2 ^ fmt.fractionBits ≤ q) := by
  have hpos : 0 < 2 ^ fmt.fractionBits := Nat.two_pow_pos _
  have hdiv := Nat.div_add_mod n (2 ^ fmt.fractionBits)
  have hmod := Nat.mod_lt n hpos
  rw [Nat.pow_succ]
  by_cases h : n / 2 ^ fmt.fractionBits = 0
  · refine ⟨0, n, by omega, ?_, by omega⟩
    rw [h] at hdiv
    omega
  · obtain ⟨k, hk⟩ := Nat.exists_eq_succ_of_ne_zero h
    refine ⟨k, 2 ^ fmt.fractionBits + n % 2 ^ fmt.fractionBits, ?_, by omega, by omega⟩
    rw [hk, Nat.succ_eq_add_one, Nat.mul_add, Nat.mul_comm] at hdiv
    omega

/-- Greater patterns have greater values. -/
theorem units_strictMono (fmt : BinaryFormat) : StrictMono fmt.units := by
  apply strictMono_nat_of_lt_succ
  intro n
  obtain ⟨p, q, hn, hlt, hge⟩ := exists_eq_mul_add fmt n
  have hsucc : fmt.units (n + 1) = (q + 1) * 2 ^ p := by
    rw [hn, Nat.add_assoc]
    exact units_mul_add (by omega) (fun hp => Nat.le_succ_of_le (hge hp))
  rw [hsucc, hn, units_mul_add (by omega) hge]
  exact Nat.mul_lt_mul_of_pos_right (Nat.lt_succ_self q) (Nat.two_pow_pos p)

/-- The value of an unsigned pattern. That of infinity is what would come after the greatest finite
value. -/
def value (fmt : BinaryFormat) (n : Nat) : ℚ := fmt.units n / 2 ^ fmt.unitExponent

/-- The pattern of one. -/
theorem value_one {p : Nat} (h : fmt.unitExponent = fmt.fractionBits + p) :
    fmt.value ((p + 1) * 2 ^ fmt.fractionBits) = 1 := by
  have hunits : fmt.units ((p + 1) * 2 ^ fmt.fractionBits + 0)
      = (2 ^ fmt.fractionBits + 0) * 2 ^ p :=
    units_add (Nat.two_pow_pos fmt.fractionBits)
  simp only [Nat.add_zero] at hunits
  rw [value, hunits, h, pow_add, Nat.cast_mul, Nat.cast_pow, Nat.cast_pow, Nat.cast_ofNat]
  exact div_self (by positivity)

theorem value_strictMono (fmt : BinaryFormat) : StrictMono fmt.value := by
  intro m n h
  have hu : (fmt.units m : ℚ) < fmt.units n := by exact_mod_cast units_strictMono fmt h
  exact div_lt_div_of_pos_right hu (by positivity)

/-! ## Nearest patterns -/

/-- The pattern `n` is nearest to `x`, and even if another one is as near. -/
structure IsNearest (fmt : BinaryFormat) (x : ℚ) (n : Nat) : Prop where
  le : n ≤ fmt.infinity
  nearest : ∀ m ≤ fmt.infinity, m ≠ n →
    |x - fmt.value n| < |x - fmt.value m| ∨ (|x - fmt.value n| = |x - fmt.value m| ∧ Even n)

/-- Between two numbers, what is not above the middle is nearer to the lower one. -/
theorem abs_le_of_le_middle {x u v : ℚ} (huv : u < v) (h : 2 * x ≤ u + v) :
    |x - u| < |x - v| ∨ (|x - u| = |x - v| ∧ 2 * x = u + v) := by
  have hv : |x - v| = v - x := by
    rw [abs_sub_comm]
    exact abs_of_nonneg (by linarith)
  rcases h.lt_or_eq with hlt | heq
  · left
    rw [hv]
    exact abs_lt.2 ⟨by linarith, by linarith⟩
  · right
    refine ⟨?_, heq⟩
    rw [hv, abs_of_nonneg (by linarith)]
    linarith

/-- What is not below the middle is nearer to the upper one. -/
theorem abs_le_of_middle_le {x u v : ℚ} (huv : u < v) (h : u + v ≤ 2 * x) :
    |x - v| < |x - u| ∨ (|x - v| = |x - u| ∧ 2 * x = u + v) := by
  have hu : |x - u| = x - u := abs_of_nonneg (by linarith)
  rcases h.lt_or_eq with hlt | heq
  · left
    rw [hu]
    exact abs_lt.2 ⟨by linarith, by linarith⟩
  · right
    refine ⟨?_, heq.symm⟩
    rw [hu, abs_sub_comm, abs_of_nonneg (by linarith)]
    linarith

/-- A value is its own nearest pattern. -/
theorem isNearest_value {n : Nat} (h : n ≤ fmt.infinity) : fmt.IsNearest (fmt.value n) n := by
  refine ⟨h, fun m _ hm => .inl ?_⟩
  rw [sub_self, abs_zero, abs_pos, sub_ne_zero]
  exact fun he => hm ((value_strictMono fmt).injective he.symm)

/-- There is only one nearest pattern: of two that are as near there would be an odd one between. -/
theorem IsNearest.unique {x : ℚ} {n n' : Nat} (h : fmt.IsNearest x n) (h' : fmt.IsNearest x n') :
    n = n' := by
  have key : ∀ a b, fmt.IsNearest x a → fmt.IsNearest x b → ¬ a < b := by
    intro a b ha hb hlt
    have hab := ha.nearest b hb.le (by omega)
    have hba := hb.nearest a ha.le (by omega)
    obtain ⟨heq, hae⟩ : |x - fmt.value a| = |x - fmt.value b| ∧ Even a := by
      rcases hab with hab | hab
      · rcases hba with hba | hba
        · exact absurd (hab.trans hba) (lt_irrefl _)
        · exact absurd hba.1 hab.ne'
      · exact hab
    have hbe : Even b := by
      rcases hba with hba | hba
      · exact absurd heq hba.ne'
      · exact hba.2
    have hsucc : a + 1 < b := by
      obtain ⟨i, rfl⟩ := hae
      obtain ⟨j, rfl⟩ := hbe
      omega
    have h₁ := value_strictMono fmt (Nat.lt_succ_self a)
    have h₂ := value_strictMono fmt hsucc
    rw [Nat.succ_eq_add_one] at h₁
    -- `x` is the middle of `a` and `b`, so `a + 1` is nearer.
    have hmid : 2 * x = fmt.value a + fmt.value b := by
      rcases abs_eq_abs.1 heq with he | he <;> linarith
    have hcl : |x - fmt.value (a + 1)| < |x - fmt.value a| := by
      have hxa : |x - fmt.value a| = x - fmt.value a := abs_of_nonneg (by linarith)
      rw [hxa]
      exact abs_lt.2 ⟨by linarith, by linarith⟩
    rcases ha.nearest (a + 1) (by have := hb.le; omega) (by omega) with hc | hc
    · exact absurd (hc.trans hcl) (lt_irrefl _)
    · exact absurd hc.1 hcl.ne'
  have h₁ := key n n' h h'
  have h₂ := key n' n h' h
  omega

/-- `x` lies between the middles on both sides of the pattern `n`; on a middle, `n` is even. -/
structure Around (fmt : BinaryFormat) (x : ℚ) (n : Nat) : Prop where
  above : 2 * x ≤ fmt.value n + fmt.value (n + 1)
  above_even : 2 * x = fmt.value n + fmt.value (n + 1) → Even n
  below : ∀ m, n = m + 1 → fmt.value m + fmt.value n ≤ 2 * x
  below_even : ∀ m, n = m + 1 → 2 * x = fmt.value m + fmt.value n → Even n

/-- To be nearer than the neighbours is to be nearest. Past infinity, infinity is nearest. -/
theorem Around.isNearest {x : ℚ} {n : Nat} (h : fmt.Around x n) :
    fmt.IsNearest x (min fmt.infinity n) := by
  refine ⟨Nat.min_le_left _ _, fun m hm hne => ?_⟩
  have hmono := value_strictMono fmt
  rcases Nat.lt_or_gt_of_ne hne with hlt | hgt
  · -- A pattern below: compare with the lower neighbour of `n`.
    obtain ⟨k, hk⟩ : ∃ k, n = k + 1 := ⟨n - 1, by omega⟩
    have hmk : fmt.value m ≤ fmt.value k := hmono.monotone (by omega)
    have hn : fmt.value (min fmt.infinity n) ≤ fmt.value n := hmono.monotone (Nat.min_le_right _ _)
    have hb := h.below k hk
    rcases abs_le_of_middle_le (hmono hlt) (show _ ≤ 2 * x by linarith) with hc | ⟨hc, heq⟩
    · exact .inl hc
    · refine .inr ⟨hc, ?_⟩
      have hnn : min fmt.infinity n = n := hmono.injective (by linarith)
      rw [hnn]
      exact h.below_even k hk (by linarith)
  · have hn : min fmt.infinity n = n := by omega
    rw [hn] at hgt ⊢
    have hm' : fmt.value (n + 1) ≤ fmt.value m := hmono.monotone hgt
    have ha := h.above
    rcases abs_le_of_le_middle (hmono hgt) (show 2 * x ≤ _ by linarith) with hc | ⟨hc, heq⟩
    · exact .inl hc
    · exact .inr ⟨hc, h.above_even (by linarith)⟩

/-! ## Rounding -/

/-- The nearest integer lies at most a half off, and it is even if it lies a half off. -/
theorem nearestEven_spec (a : Nat) {d : Nat} (hd : 0 < d) :
    (2 * a ≤ (2 * nearestEven a d + 1) * d ∧
        (2 * a = (2 * nearestEven a d + 1) * d → nearestEven a d % 2 = 0)) ∧
      ∀ k, nearestEven a d = k + 1 →
        (2 * k + 1) * d ≤ 2 * a ∧ (2 * a = (2 * k + 1) * d → nearestEven a d % 2 = 0) := by
  have ha := Nat.div_add_mod a d
  have hr := Nat.mod_lt a hd
  unfold nearestEven
  dsimp only
  -- Only the quotient and the remainder matter.
  generalize a / d = q at ha ⊢
  generalize a % d = r at ha hr ⊢
  have expand : ∀ k, (2 * k + 1) * d = 2 * (d * k) + d := fun k => by ring
  split
  · next hdown =>
    refine ⟨⟨?_, ?_⟩, ?_⟩
    · rw [expand]
      omega
    · rw [expand]
      omega
    · rintro k rfl
      rw [expand]
      rw [Nat.mul_add, Nat.mul_one] at ha
      omega
  · next hup =>
    refine ⟨⟨?_, ?_⟩, ?_⟩
    · rw [expand, Nat.mul_add, Nat.mul_one]
      omega
    · rw [expand, Nat.mul_add, Nat.mul_one]
      omega
    · intro k hk
      obtain rfl : q = k := by omega
      rw [expand]
      omega

/-- The quotient that is rounded has the digits that a significand has room for. -/
theorem quotient_bounds (fmt : BinaryFormat) (a : Nat) {den : Nat} (hden : 0 < den) :
    let p := Nat.log2 (a / den) - fmt.fractionBits
    a < 2 ^ (fmt.fractionBits + 1) * (den * 2 ^ p) ∧
      (p ≠ 0 → 2 ^ fmt.fractionBits * (den * 2 ^ p) ≤ a) := by
  intro p
  have hlt : a < (a / den + 1) * den := by
    rw [Nat.add_mul, Nat.one_mul]
    exact Nat.lt_div_mul_add hden
  constructor
  · have hlog : a / den + 1 ≤ 2 ^ (fmt.fractionBits + 1 + p) :=
      (Nat.lt_log2_self (n := a / den)).trans_le (Nat.pow_le_pow_right (by decide) (by omega))
    calc a < (a / den + 1) * den := hlt
      _ ≤ 2 ^ (fmt.fractionBits + 1 + p) * den := Nat.mul_le_mul_right _ hlog
      _ = 2 ^ (fmt.fractionBits + 1) * (den * 2 ^ p) := by ring
  · intro hp
    have hne : a / den ≠ 0 := by
      intro h0
      simp [p, h0] at hp
    have hlog : 2 ^ (fmt.fractionBits + p) ≤ a / den := by
      rw [show fmt.fractionBits + p = Nat.log2 (a / den) by omega]
      exact Nat.log2_self_le hne
    calc 2 ^ fmt.fractionBits * (den * 2 ^ p) = 2 ^ (fmt.fractionBits + p) * den := by ring
      _ ≤ a / den * den := Nat.mul_le_mul_right _ hlog
      _ ≤ a := Nat.div_mul_le_self a den

/-- A fraction and the sum of two values are compared in units. -/
theorem two_mul_le_iff (num : Nat) {den : Nat} (hden : 0 < den) (m n : Nat) :
    2 * ((num : ℚ) / den) ≤ fmt.value m + fmt.value n ↔
      2 * (num * 2 ^ fmt.unitExponent) ≤ (fmt.units m + fmt.units n) * den := by
  have hd : (0 : ℚ) < den := by exact_mod_cast hden
  rw [value, value, ← add_div, ← mul_div_assoc, div_le_div_iff₀ hd (by positivity)]
  rw [← Nat.cast_le (α := ℚ)]
  push_cast
  rw [mul_assoc]

theorem le_two_mul_iff (num : Nat) {den : Nat} (hden : 0 < den) (m n : Nat) :
    fmt.value m + fmt.value n ≤ 2 * ((num : ℚ) / den) ↔
      (fmt.units m + fmt.units n) * den ≤ 2 * (num * 2 ^ fmt.unitExponent) := by
  have hd : (0 : ℚ) < den := by exact_mod_cast hden
  rw [value, value, ← add_div, ← mul_div_assoc, div_le_div_iff₀ (by positivity) hd]
  rw [← Nat.cast_le (α := ℚ)]
  push_cast
  rw [mul_assoc 2]

theorem nearestEven_le {a d k : Nat} (hd : 0 < d) (h : a < k * d) : nearestEven a d ≤ k := by
  obtain ⟨-, hbelow⟩ := nearestEven_spec a hd
  rcases hq : nearestEven a d with _ | j
  · exact Nat.zero_le k
  · have hj := (hbelow j hq).1
    have hlt : (2 * j + 1) * d < (2 * k) * d := by
      rw [Nat.mul_assoc 2 k d]
      omega
    have := Nat.lt_of_mul_lt_mul_right hlt
    omega

theorem le_nearestEven {a d k : Nat} (hd : 0 < d) (h : k * d ≤ a) : k ≤ nearestEven a d := by
  have habove := (nearestEven_spec a hd).1.1
  have hle : (2 * k) * d ≤ (2 * nearestEven a d + 1) * d := by
    rw [Nat.mul_assoc 2 k d]
    omega
  have := Nat.le_of_mul_le_mul_right hle hd
  omega

/-- The next pattern is at least one step of the scale further. -/
theorem le_units_succ {p q : Nat} (hq : q ≤ 2 ^ (fmt.fractionBits + 1))
    (hq' : p ≠ 0 → 2 ^ fmt.fractionBits ≤ q) :
    (q + 1) * 2 ^ p ≤ fmt.units (p * 2 ^ fmt.fractionBits + q + 1) := by
  by_cases hq1 : q + 1 ≤ 2 ^ (fmt.fractionBits + 1)
  · rw [Nat.add_assoc, units_mul_add hq1 (fun hp => Nat.le_succ_of_le (hq' hp))]
  · have hpos : 0 < 2 ^ fmt.fractionBits := Nat.two_pow_pos _
    rw [Nat.pow_succ] at hq hq1
    have heq : p * 2 ^ fmt.fractionBits + q + 1
        = (p + 1) * 2 ^ fmt.fractionBits + (2 ^ fmt.fractionBits + 1) := by
      rw [Nat.add_mul]
      omega
    rw [heq, units_mul_add (by rw [Nat.pow_succ]; omega) (fun _ => Nat.le_succ _), Nat.pow_succ,
      ← Nat.mul_assoc, Nat.mul_right_comm]
    apply Nat.mul_le_mul_right
    omega

/-- A rounded quotient makes a pattern around the fraction that is rounded, once scale and quotient
fit together. -/
theorem around_mul_add (hf : fmt.fractionBits ≠ 0) {num den p : Nat} (hden : 0 < den)
    (hlt : num * 2 ^ fmt.unitExponent < 2 ^ (fmt.fractionBits + 1) * (den * 2 ^ p))
    (hge : p ≠ 0 → 2 ^ fmt.fractionBits * (den * 2 ^ p) ≤ num * 2 ^ fmt.unitExponent) :
    fmt.Around (num / den)
      (p * 2 ^ fmt.fractionBits + nearestEven (num * 2 ^ fmt.unitExponent) (den * 2 ^ p)) := by
  have hD : 0 < den * 2 ^ p := Nat.mul_pos hden (Nat.two_pow_pos p)
  have hq := nearestEven_le hD hlt
  have hq' := fun hp => le_nearestEven hD (hge hp)
  obtain ⟨⟨habove, haeven⟩, hbelow⟩ := nearestEven_spec (num * 2 ^ fmt.unitExponent) hD
  generalize nearestEven (num * 2 ^ fmt.unitExponent) (den * 2 ^ p) = q at *
  have hn := units_mul_add hq hq'
  have heven : q % 2 = 0 → Even (p * 2 ^ fmt.fractionBits + q) := by
    intro h
    have h2 : Even (2 ^ fmt.fractionBits) := Nat.even_pow.2 ⟨by decide, hf⟩
    exact (h2.mul_left p).add (Nat.even_iff.2 h)
  have hstep : ∀ k, (2 * k + 1) * (den * 2 ^ p) = (k * 2 ^ p + (k + 1) * 2 ^ p) * den :=
    fun k => by ring
  have hnext : (2 * q + 1) * (den * 2 ^ p)
      ≤ (fmt.units (p * 2 ^ fmt.fractionBits + q)
        + fmt.units (p * 2 ^ fmt.fractionBits + q + 1)) * den := by
    rw [hstep, hn]
    exact Nat.mul_le_mul_right _ (Nat.add_le_add_left (le_units_succ hq hq') _)
  -- Either the scale changes below the pattern, or the lower neighbour has the same scale.
  have hprev : ∀ m, p * 2 ^ fmt.fractionBits + q = m + 1 →
      (fmt.units m + fmt.units (p * 2 ^ fmt.fractionBits + q)) * den
        < 2 * (num * 2 ^ fmt.unitExponent) ∨
      ∃ k, q = k + 1 ∧ fmt.units m = k * 2 ^ p := by
    intro m hm
    by_cases hp : p ≠ 0 ∧ q = 2 ^ fmt.fractionBits
    · left
      have hlt : fmt.units m < fmt.units (p * 2 ^ fmt.fractionBits + q) :=
        units_strictMono fmt (by omega)
      calc (fmt.units m + fmt.units (p * 2 ^ fmt.fractionBits + q)) * den
          < (2 * (q * 2 ^ p)) * den := Nat.mul_lt_mul_of_pos_right (by omega) hden
        _ = 2 * (2 ^ fmt.fractionBits * (den * 2 ^ p)) := by rw [hp.2]; ring
        _ ≤ 2 * (num * 2 ^ fmt.unitExponent) := Nat.mul_le_mul_left 2 (hge hp.1)
    · right
      have hpos : 0 < 2 ^ fmt.fractionBits := Nat.two_pow_pos _
      have hq1 : q ≠ 0 ∧ (p ≠ 0 → 2 ^ fmt.fractionBits < q) := by
        by_cases h0 : p = 0
        · subst h0
          omega
        · have := hq' h0
          omega
      refine ⟨q - 1, by omega, ?_⟩
      rw [show m = p * 2 ^ fmt.fractionBits + (q - 1) by omega,
        units_mul_add (by omega) (fun h => by have := hq1.2 h; omega)]
  constructor
  · rw [two_mul_le_iff num hden]
    exact habove.trans hnext
  · intro heq
    have h := (le_two_mul_iff num hden _ _).1 heq.ge
    exact heven (haeven (Nat.le_antisymm habove (hnext.trans h)))
  · intro m hm
    rw [le_two_mul_iff num hden]
    rcases hprev m hm with h | ⟨k, hk, hm'⟩
    · exact h.le
    · rw [hm', hn, hk, ← hstep]
      exact (hbelow k hk).1
  · intro m hm heq
    have h' := (two_mul_le_iff num hden _ _).1 heq.le
    rcases hprev m hm with h | ⟨k, hk, hm'⟩
    · exact absurd h' (Nat.not_le_of_lt h)
    · rw [hm', hn, hk, ← hstep] at h'
      exact heven ((hbelow k hk).2 (Nat.le_antisymm h' (hbelow k hk).1))

/-- A fraction is rounded to the nearest pattern. -/
theorem isNearest_round (hf : fmt.fractionBits ≠ 0) (num : Nat) {den : Nat} (hden : 0 < den) :
    fmt.IsNearest (num / den) (fmt.round num den) := by
  obtain ⟨hlt, hge⟩ := quotient_bounds fmt (num * 2 ^ fmt.unitExponent) hden
  exact (around_mul_add hf hden hlt hge).isNearest

end ProtoJson.BinaryFormat
