import Mathlib.Data.List.TakeDrop
import Mathlib.Data.List.TakeWhile
import ProtoJson.Number.Digits
import ProtoJson.Proofs.Text.Utf8

/-!
# Runs of digits

How a run of digits is cut off from what follows it, and what the digits of a number look like.
-/

namespace ProtoJson

theorem isDigit_iff (c : Char) : isDigit c = true ↔ 48 ≤ c.toNat ∧ c.toNat ≤ 57 := by
  have hle : ∀ a b : Char, a ≤ b ↔ a.toNat ≤ b.toNat := fun a b => by
    rw [Char.le_def, UInt32.le_iff_toNat_le]
    rfl
  rw [isDigit, Bool.and_eq_true, decide_eq_true_eq, decide_eq_true_eq, hle, hle]
  rfl

/-- What follows a run of digits: no digit. -/
def EndsDigits (r : List Char) : Prop := ∀ c x, r = c :: x → isDigit c = false

theorem endsDigits_nil : EndsDigits [] := fun _ _ h => by cases h

theorem endsDigits_cons {c : Char} (hc : isDigit c = false) (r : List Char) :
    EndsDigits (c :: r) := by
  intro c' x h
  cases h
  exact hc

/-- A run of digits is cut off where it ends. -/
theorem span_digits {ds r : List Char} (hd : ds.all isDigit = true) (hr : EndsDigits r) :
    (ds ++ r).span isDigit = (ds, r) := by
  have hpos : ∀ d ∈ ds, isDigit d = true := List.all_eq_true.1 hd
  rw [List.span_eq_takeWhile_dropWhile, List.takeWhile_append_of_pos hpos,
    List.dropWhile_append_of_pos hpos]
  cases r with
  | nil => simp
  | cons c x =>
    have hc := hr c x rfl
    rw [List.takeWhile_cons_of_neg (by simp [hc]), List.dropWhile_cons_of_neg (by simp [hc]),
      List.append_nil]

theorem ofDigits_replicate_zero (n : Nat) : ofDigits (List.replicate n '0') = 0 := by
  induction n with
  | zero => rfl
  | succ n ih => rw [List.replicate_succ', ofDigits_append, ih]; rfl

/-! ## The digits of a number -/

theorem decimal_ne_nil (n : Nat) : decimal n ≠ [] := by
  rw [decimal]
  split <;> simp

theorem decimal_zero : decimal 0 = ['0'] := by
  rw [decimal]
  rfl

theorem isDigit_digitChar : ∀ n < 10, isDigit (digitChar n) = true := by decide

theorem all_isDigit_decimal (n : Nat) : (decimal n).all isDigit = true := by
  induction n using Nat.strongRecOn with
  | ind n ih =>
    rw [decimal]
    split
    · next h => simp [isDigit_digitChar n h]
    · simp [ih (n / 10) (by omega), isDigit_digitChar _ (Nat.mod_lt n (by decide))]

theorem mem_decimalInt {n : Int} {c : Char} (h : c ∈ decimalInt n) :
    c = '-' ∨ isDigit c = true := by
  have hdigits := fun n => List.all_eq_true.1 (all_isDigit_decimal n)
  unfold decimalInt at h
  split at h
  · exact (List.mem_cons.1 h).imp_right (hdigits _ c)
  · exact .inr (hdigits _ c h)

/-- There is no leading zero. -/
theorem head?_decimal_ne {n : Nat} (h : n ≠ 0) : (decimal n).head? ≠ some '0' := by
  have hne : ∀ d < 10, d ≠ 0 → digitChar d ≠ '0' := by decide
  induction n using Nat.strongRecOn with
  | ind n ih =>
    rw [decimal]
    split
    · next hlt => simp [hne n hlt h]
    · next hge =>
      have ih' := ih (n / 10) (by omega) (by omega)
      rw [List.head?_append]
      cases hd : (decimal (n / 10)).head? with
      | none => exact absurd (List.head?_eq_none_iff.1 hd) (decimal_ne_nil _)
      | some c =>
        rw [hd] at ih'
        exact ih'

end ProtoJson
