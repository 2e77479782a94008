import ProtoJson.Base64
import ProtoJson.Proofs.Grammar.StringLiteral

/-!
# Decoding base64

What `encode` writes decodes to the bytes that it was given, and nothing else decodes to them. None
of its characters needs an escape in a string.
-/

namespace ProtoJson

namespace Base64

theorem value?_digit {n : Nat} (h : n < 64) : value? (digit n) = some n := by
  have key : ∀ n < 64, value? (digit n) = some n := by decide
  exact key n h

theorem digit_ne_pad {n : Nat} (h : n < 64) : digit n ≠ ascii '=' := by
  have key : ∀ n < 64, digit n ≠ ascii '=' := by decide
  exact key n h

/-- The three bytes of a group come back from its four digits. -/
theorem group_bytes (a b c : UInt8) :
    (a.toNat / 4 * 4 + (a.toNat % 4 * 16 + b.toNat / 16) / 16).toUInt8 = a ∧
      ((a.toNat % 4 * 16 + b.toNat / 16) % 16 * 16 + (b.toNat % 16 * 4 + c.toNat / 64) / 4).toUInt8
        = b ∧
      ((b.toNat % 16 * 4 + c.toNat / 64) % 4 * 64 + c.toNat % 64).toUInt8 = c := by
  have ha := a.toNat_lt
  have hb := b.toNat_lt
  have hc := c.toNat_lt
  exact ⟨toUInt8_eq (by omega), toUInt8_eq (by omega), toUInt8_eq (by omega)⟩

/-- Bytes come back from their base64 form. -/
theorem decode?_encode (bs : List UInt8) : decode? (encode bs) = some bs := by
  fun_induction encode bs with
  | case1 a b c r ih =>
    have ha := a.toNat_lt
    have hb := b.toNat_lt
    have hc := c.toNat_lt
    obtain ⟨h₁, h₂, h₃⟩ := group_bytes a b c
    have v₁ : value? (digit (a.toNat / 4)) = some (a.toNat / 4) := value?_digit (by omega)
    have v₂ := value?_digit (n := a.toNat % 4 * 16 + b.toNat / 16) (by omega)
    have v₃ := value?_digit (n := b.toNat % 16 * 4 + c.toNat / 64) (by omega)
    have v₄ := value?_digit (n := c.toNat % 64) (by omega)
    have n₃ := digit_ne_pad (n := b.toNat % 16 * 4 + c.toNat / 64) (by omega)
    have n₄ := digit_ne_pad (n := c.toNat % 64) (by omega)
    -- A group of four digits is the last one exactly if nothing follows it.
    cases hr : encode r with
    | nil =>
      rw [hr, decode?, Option.some.injEq] at ih
      simp only [decode?, lastGroup?, v₁, v₂, v₃, v₄, n₃, n₄, if_false, Option.bind_eq_bind,
        Option.bind_some, Option.pure_def, h₁, h₂, h₃, ← ih]
    | cons e es =>
      rw [hr] at ih
      simp only [decode?, v₁, v₂, v₃, v₄, Option.bind_eq_bind, Option.bind_some, ih,
        Option.pure_def, h₁, h₂, h₃]
  | case2 a b =>
    have ha := a.toNat_lt
    have hb := b.toNat_lt
    have v₁ : value? (digit (a.toNat / 4)) = some (a.toNat / 4) := value?_digit (by omega)
    have v₂ := value?_digit (n := a.toNat % 4 * 16 + b.toNat / 16) (by omega)
    have v₃ := value?_digit (n := b.toNat % 16 * 4) (by omega)
    have n₃ := digit_ne_pad (n := b.toNat % 16 * 4) (by omega)
    have h₁ : (a.toNat / 4 * 4 + (a.toNat % 4 * 16 + b.toNat / 16) / 16).toUInt8 = a :=
      toUInt8_eq (by omega)
    have h₂ : ((a.toNat % 4 * 16 + b.toNat / 16) % 16 * 16 + b.toNat % 16 * 4 / 4).toUInt8 = b :=
      toUInt8_eq (by omega)
    have h₃ : b.toNat % 16 * 4 % 4 = 0 := by omega
    simp only [decode?, lastGroup?, v₁, v₂, v₃, n₃, h₃, if_true, if_false, Option.bind_eq_bind,
      Option.bind_some, Option.pure_def, h₁, h₂]
  | case3 a =>
    have ha := a.toNat_lt
    have v₁ : value? (digit (a.toNat / 4)) = some (a.toNat / 4) := value?_digit (by omega)
    have v₂ := value?_digit (n := a.toNat % 4 * 16) (by omega)
    have h₁ : (a.toNat / 4 * 4 + a.toNat % 4 * 16 / 16).toUInt8 = a := toUInt8_eq (by omega)
    have h₃ : a.toNat % 4 * 16 % 16 = 0 := by omega
    simp only [decode?, lastGroup?, v₁, v₂, h₃, if_true, Bool.and_self,
      decide_true, Option.bind_eq_bind, Option.bind_some, Option.pure_def, h₁]
  | case4 => rfl

/-! ## What decodes -/

/-- Each six-bit value has one digit. -/
theorem digit_of_value? {b : UInt8} {n : Nat} (h : value? b = some n) : n < 64 ∧ digit n = b := by
  have key : ∀ b, (value? b).all (fun n => decide (n < 64 ∧ digit n = b)) = true :=
    Grammar.forall_byte (by decide +kernel)
  have hb := key b
  rwa [h, Option.all_some, decide_eq_true_eq] at hb

section

variable {a b c d : Nat}

/-- The first byte of a group keeps the first digit and the front of the second. -/
theorem first_byte (ha : a < 64) (hb : b < 64) : (a * 4 + b / 16).toUInt8.toNat / 4 = a ∧
    (a * 4 + b / 16).toUInt8.toNat % 4 = b / 16 := by
  rw [toNat_toUInt8 (by omega)]
  omega

/-- The second byte keeps the end of the second digit and the front of the third. -/
theorem second_byte (hc : c < 64) : (b % 16 * 16 + c / 4).toUInt8.toNat / 16 = b % 16 ∧
    (b % 16 * 16 + c / 4).toUInt8.toNat % 16 = c / 4 := by
  rw [toNat_toUInt8 (by omega)]
  omega

/-- The third byte keeps the end of the third digit and the fourth digit. -/
theorem third_byte (hd : d < 64) : (c % 4 * 64 + d).toUInt8.toNat / 64 = c % 4 ∧
    (c % 4 * 64 + d).toUInt8.toNat % 64 = d := by
  rw [toNat_toUInt8 (by omega)]
  omega

/-- The four digits of a group come back from its three bytes. -/
theorem encode_group (ha : a < 64) (hb : b < 64) (hc : c < 64) (hd : d < 64) (r : List UInt8) :
    encode ((a * 4 + b / 16).toUInt8 :: (b % 16 * 16 + c / 4).toUInt8
      :: (c % 4 * 64 + d).toUInt8 :: r)
      = digit a :: digit b :: digit c :: digit d :: encode r := by
  obtain ⟨h₁, h₂⟩ := first_byte ha hb
  obtain ⟨h₃, h₄⟩ := second_byte (b := b) hc
  obtain ⟨h₅, h₆⟩ := third_byte (c := c) hd
  rw [encode, h₁, h₂, h₃, h₄, h₅, h₆, show b / 16 * 16 + b % 16 = b by omega,
    show c / 4 * 4 + c % 4 = c by omega]

end

/-- A last group that decodes is written as it was: there is one padding for each length, and the
bits that no byte uses are zero. -/
theorem encode_of_lastGroup? {a b c d : UInt8} {bs : List UInt8}
    (h : lastGroup? a b c d = some bs) : encode bs = [a, b, c, d] := by
  simp only [lastGroup?, Option.bind_eq_bind, Option.bind_eq_some_iff] at h
  obtain ⟨x, vx, y, vy, hbytes⟩ := h
  obtain ⟨hx, rfl⟩ := digit_of_value? vx
  obtain ⟨hy, rfl⟩ := digit_of_value? vy
  obtain ⟨h₁, h₂⟩ := first_byte hx hy
  split at hbytes
  · next hc =>
    split at hbytes
    · next hpad =>
      rw [Bool.and_eq_true, decide_eq_true_eq, decide_eq_true_eq] at hpad
      cases hbytes
      rw [encode, h₁, h₂, show y / 16 * 16 = y by omega, hc, hpad.1]
    · cases hbytes
  · obtain ⟨z, vz, hlast⟩ := Option.bind_eq_some_iff.1 hbytes
    obtain ⟨hz, rfl⟩ := digit_of_value? vz
    obtain ⟨h₃, h₄⟩ := second_byte (b := y) hz
    split at hlast
    · next hd =>
      split at hlast
      · next hbits =>
        cases hlast
        rw [encode, h₁, h₂, h₃, h₄, show y / 16 * 16 + y % 16 = y by omega,
          show z / 4 * 4 = z by omega, hd]
      · cases hlast
    · obtain ⟨w, vw, hwhole⟩ := Option.bind_eq_some_iff.1 hlast
      obtain ⟨hw, rfl⟩ := digit_of_value? vw
      cases hwhole
      exact encode_group hx hy hz hw []

/-- A text that decodes is the base64 form of its bytes. -/
theorem encode_of_decode? {text bs : List UInt8} (h : decode? text = some bs) :
    encode bs = text := by
  fun_induction decode? text generalizing bs with
  | case1 =>
    cases h
    rfl
  | case2 a b c d => exact encode_of_lastGroup? h
  | case3 a b c d r hr ih =>
    simp only [Option.bind_eq_bind, Option.bind_eq_some_iff, Option.pure_def,
      Option.some.injEq] at h
    obtain ⟨x, vx, y, vy, z, vz, w, vw, rest, hrest, rfl⟩ := h
    obtain ⟨hx, rfl⟩ := digit_of_value? vx
    obtain ⟨hy, rfl⟩ := digit_of_value? vy
    obtain ⟨hz, rfl⟩ := digit_of_value? vz
    obtain ⟨hw, rfl⟩ := digit_of_value? vw
    rw [encode_group hx hy hz hw, ih hrest]
  | case4 => cases h

/-- A text decodes to just the bytes that it is the base64 form of. -/
theorem decode?_eq_some_iff {text bs : List UInt8} : decode? text = some bs ↔ encode bs = text :=
  ⟨encode_of_decode?, fun h => h ▸ decode?_encode bs⟩

/-! ## Characters -/

/-- Every character of a base64 text is a digit or the padding. -/
theorem mem_encode {bs : List UInt8} {b : UInt8} (h : b ∈ encode bs) :
    b = ascii '=' ∨ ∃ n < 64, b = digit n := by
  have key : ∀ n, n < 64 → ∃ m < 64, digit n = digit m := fun n hn => ⟨n, hn, rfl⟩
  fun_induction encode bs with
  | case1 a₁ a₂ a₃ r ih =>
    have h₁ := a₁.toNat_lt
    have h₂ := a₂.toNat_lt
    have h₃ := a₃.toNat_lt
    simp only [List.mem_cons] at h
    rcases h with rfl | rfl | rfl | rfl | h
    · exact .inr (key _ (by omega))
    · exact .inr (key _ (by omega))
    · exact .inr (key _ (by omega))
    · exact .inr (key _ (by omega))
    · exact ih h
  | case2 a₁ a₂ =>
    have h₁ := a₁.toNat_lt
    have h₂ := a₂.toNat_lt
    simp only [List.mem_cons, List.not_mem_nil, or_false] at h
    rcases h with rfl | rfl | rfl | rfl
    · exact .inr (key _ (by omega))
    · exact .inr (key _ (by omega))
    · exact .inr (key _ (by omega))
    · exact .inl rfl
  | case3 a₁ =>
    have h₁ := a₁.toNat_lt
    simp only [List.mem_cons, List.not_mem_nil, or_false] at h
    rcases h with rfl | rfl | rfl | rfl
    · exact .inr (key _ (by omega))
    · exact .inr (key _ (by omega))
    · exact .inl rfl
    · exact .inl rfl
  | case4 => cases h

end Base64

namespace Grammar.StringLiteral

/-- The string of bytes in base64. -/
def ofBase64 (bs : List UInt8) : StringLiteral :=
  ofString (String.ofList ((Base64.encode bs).map fun b => Char.ofNat b.toNat))

/-- No character of a base64 text is escaped. -/
theorem raw_ofBase64 (bs : List UInt8) : Quotation.raw (ofBase64 bs) = Base64.encode bs := by
  have hchar : ∀ b ∈ Base64.encode bs,
      Utf8.encode (Escape.escapeChar (Char.ofNat b.toNat)) = [b] := by
    intro b hb
    have key : ∀ n < 64, Utf8.encode (Escape.escapeChar (Char.ofNat (Base64.digit n).toNat))
        = [Base64.digit n] := by decide +kernel
    rcases Base64.mem_encode hb with rfl | ⟨n, hn, rfl⟩
    · decide
    · exact key n hn
  have hraw : ∀ xs : List UInt8,
      (∀ b ∈ xs, Utf8.encode (Escape.escapeChar (Char.ofNat b.toNat)) = [b]) →
      Utf8.encode (Escape.escape (xs.map fun b => Char.ofNat b.toNat)) = xs := by
    intro xs h
    induction xs with
    | nil => rfl
    | cons b xs ih =>
      have htail := ih fun c hc => h c (by simp [hc])
      rw [Escape.escape] at htail ⊢
      rw [List.map_cons, List.flatMap_cons, Utf8.encode_append, h b (by simp), htail]
      rfl
  show Utf8.encode (ofBase64 bs).source = _
  rw [ofBase64, source_ofString, String.toList_ofList]
  exact hraw _ hchar

end Grammar.StringLiteral

end ProtoJson
