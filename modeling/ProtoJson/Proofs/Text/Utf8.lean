import Mathlib.Tactic.SplitIfs
import ProtoJson.Text.Utf8

/-!
# Encoding and decoding UTF-8

Decoding gives back the text that was encoded, and the bytes of an encoded text that are ASCII are
those of its ASCII characters.
-/

namespace ProtoJson

/-- The number of a byte that was made from a number below 256. -/
theorem toNat_toUInt8 {n : Nat} (h : n < 256) : n.toUInt8.toNat = n := by
  simp [Nat.mod_eq_of_lt h]

theorem toUInt8_eq {n : Nat} {b : UInt8} (h : n = b.toNat) : n.toUInt8 = b := by
  rw [h]
  exact UInt8.ofNat_toNat

theorem toNat_ascii {c : Char} (h : c.toNat < 256) : (ascii c).toNat = c.toNat :=
  toNat_toUInt8 h

/-- ASCII characters of the same byte are the same. -/
theorem ascii_inj {c d : Char} (hc : c.toNat < 256) (hd : d.toNat < 256) (h : ascii c = ascii d) :
    c = d := by
  have hn : c.toNat = d.toNat := by rw [← toNat_ascii hc, h, toNat_ascii hd]
  exact Char.ext (UInt32.toNat_inj.1 hn)

namespace Utf8

/-- A character is no surrogate and not above U+10FFFF. -/
theorem toNat_char (c : Char) : c.toNat < 0xD800 ∨ (0xDFFF < c.toNat ∧ c.toNat < 0x110000) := by
  have h := c.valid
  simpa [UInt32.isValidChar, Nat.isValidChar] using h

theorem isTail_iff (b : UInt8) : isTail b = true ↔ 0x80 ≤ b.toNat ∧ b.toNat ≤ 0xBF := by
  simp [isTail, UInt8.le_iff_toNat_le]

theorem isSecond_iff (a b : UInt8) : isSecond a b = true ↔
    (if a.toNat = 0xE0 then 0xA0 ≤ b.toNat ∧ b.toNat ≤ 0xBF
    else if a.toNat = 0xED then 0x80 ≤ b.toNat ∧ b.toNat ≤ 0x9F
    else if a.toNat = 0xF0 then 0x90 ≤ b.toNat ∧ b.toNat ≤ 0xBF
    else if a.toNat = 0xF4 then 0x80 ≤ b.toNat ∧ b.toNat ≤ 0x8F
    else 0x80 ≤ b.toNat ∧ b.toNat ≤ 0xBF) := by
  simp only [isSecond, beq_iff_eq, ← UInt8.toNat_inj]
  split_ifs <;> simp_all [isTail_iff, UInt8.le_iff_toNat_le]

/-- One byte below `0x80` is a character of its own. -/
theorem next_one {a : UInt8} (h : a.toNat < 0x80) (r : List UInt8) :
    next a r = (.scalar (Char.ofNat a.toNat), r) := by
  rw [next.eq_def, if_pos (by simpa [UInt8.lt_iff_toNat_lt] using h)]

theorem next_two {a b : UInt8} {x y : Nat} (ha : a.toNat = 0xC0 + x) (hb : b.toNat = 0x80 + y)
    (hx : 2 ≤ x ∧ x < 32) (hy : y < 64) (r : List UInt8) :
    next a (b :: r) = (.scalar (Char.ofNat (x * 64 + y)), r) := by
  have h₁ : ¬ a < 0x80 := by simp [UInt8.lt_iff_toNat_lt]; omega
  have h₂ : (0xC2 ≤ a && a ≤ 0xDF) = true := by simp [UInt8.le_iff_toNat_le]; omega
  have hb' : isTail b = true := by
    rw [isTail_iff]
    omega
  have hn : (a.toNat - 0xC0) * 64 + tailBits b = x * 64 + y := by unfold tailBits; omega
  simp only [next, h₁, h₂, hb', hn, if_true, if_false]

theorem next_three {a b c : UInt8} {x y z : Nat} (ha : a.toNat = 0xE0 + x)
    (hb : b.toNat = 0x80 + y) (hc : c.toNat = 0x80 + z) (hx : x < 16)
    (hs : isSecond a b = true) (hz : z < 64) (r : List UInt8) :
    next a (b :: c :: r) = (.scalar (Char.ofNat (x * 4096 + y * 64 + z)), r) := by
  have h₁ : ¬ a < 0x80 := by simp [UInt8.lt_iff_toNat_lt]; omega
  have h₂ : (0xC2 ≤ a && a ≤ 0xDF) = false := by simp [UInt8.le_iff_toNat_le]; omega
  have h₃ : (0xE0 ≤ a && a ≤ 0xEF) = true := by simp [UInt8.le_iff_toNat_le]; omega
  have hc' : isTail c = true := by rw [isTail_iff]; omega
  have hn : (a.toNat - 0xE0) * 4096 + tailBits b * 64 + tailBits c = x * 4096 + y * 64 + z := by
    unfold tailBits
    omega
  simp only [next, h₁, h₂, h₃, hs, hc', hn, if_true, if_false, Bool.false_eq_true]

theorem next_four {a b c d : UInt8} {x y z w : Nat} (ha : a.toNat = 0xF0 + x)
    (hb : b.toNat = 0x80 + y) (hc : c.toNat = 0x80 + z) (hd : d.toNat = 0x80 + w) (hx : x < 5)
    (hs : isSecond a b = true) (hz : z < 64) (hw : w < 64) (r : List UInt8) :
    next a (b :: c :: d :: r) =
      (.scalar (Char.ofNat (x * 262144 + y * 4096 + z * 64 + w)), r) := by
  have h₁ : ¬ a < 0x80 := by simp [UInt8.lt_iff_toNat_lt]; omega
  have h₂ : (0xC2 ≤ a && a ≤ 0xDF) = false := by simp [UInt8.le_iff_toNat_le]; omega
  have h₃ : (0xE0 ≤ a && a ≤ 0xEF) = false := by simp [UInt8.le_iff_toNat_le]; omega
  have h₄ : (0xF0 ≤ a && a ≤ 0xF4) = true := by simp [UInt8.le_iff_toNat_le]; omega
  have hc' : isTail c = true := by rw [isTail_iff]; omega
  have hd' : isTail d = true := by rw [isTail_iff]; omega
  have hn : (a.toNat - 0xF0) * 262144 + tailBits b * 4096 + tailBits c * 64 + tailBits d
      = x * 262144 + y * 4096 + z * 64 + w := by
    unfold tailBits
    omega
  simp only [next, h₁, h₂, h₃, h₄, hs, hc', hd', hn, if_true, if_false, Bool.false_eq_true]

/-- Each character is decoded from the bytes that encode it, whatever follows them. -/
theorem next_encodeChar (c : Char) (r : List UInt8) :
    ∃ a x, encodeChar c = a :: x ∧ next a (x ++ r) = (.scalar c, r) := by
  have hv := toNat_char c
  have hc : Char.ofNat c.toNat = c := Char.ofNat_toNat c
  unfold encodeChar
  dsimp only
  generalize c.toNat = n at hv hc ⊢
  -- One byte, or a first byte that says how many follow it with six bits each.
  by_cases h₁ : n < 0x80
  · rw [if_pos h₁]
    have ha : n.toUInt8.toNat = n := toNat_toUInt8 (by omega)
    refine ⟨_, _, rfl, ?_⟩
    rw [List.nil_append, next_one (by omega), ha, hc]
  rw [if_neg h₁]
  have hlast : (0x80 + n % 64).toUInt8.toNat = 0x80 + n % 64 := toNat_toUInt8 (by omega)
  generalize (0x80 + n % 64).toUInt8 = last at hlast ⊢
  by_cases h₂ : n < 0x800
  · rw [if_pos h₂]
    have ha : (0xC0 + n / 64).toUInt8.toNat = 0xC0 + n / 64 := toNat_toUInt8 (by omega)
    generalize (0xC0 + n / 64).toUInt8 = a at ha ⊢
    refine ⟨a, _, rfl, (next_two ha hlast (by omega) (by omega) r).trans ?_⟩
    rw [show n / 64 * 64 + n % 64 = n by omega, hc]
  rw [if_neg h₂]
  have hmid : (0x80 + n / 64 % 64).toUInt8.toNat = 0x80 + n / 64 % 64 := toNat_toUInt8 (by omega)
  generalize (0x80 + n / 64 % 64).toUInt8 = mid at hmid ⊢
  by_cases h₃ : n < 0x10000
  · rw [if_pos h₃]
    have ha : (0xE0 + n / 4096).toUInt8.toNat = 0xE0 + n / 4096 := toNat_toUInt8 (by omega)
    generalize (0xE0 + n / 4096).toUInt8 = a at ha ⊢
    have hs : isSecond a mid = true := by
      rw [isSecond_iff, ha, hmid]
      split_ifs <;> omega
    refine ⟨a, _, rfl, (next_three ha hmid hlast (by omega) hs (by omega) r).trans ?_⟩
    rw [show n / 4096 * 4096 + n / 64 % 64 * 64 + n % 64 = n by omega, hc]
  · rw [if_neg h₃]
    have ha : (0xF0 + n / 262144).toUInt8.toNat = 0xF0 + n / 262144 := toNat_toUInt8 (by omega)
    have hb : (0x80 + n / 4096 % 64).toUInt8.toNat = 0x80 + n / 4096 % 64 :=
      toNat_toUInt8 (by omega)
    generalize (0xF0 + n / 262144).toUInt8 = a at ha ⊢
    generalize (0x80 + n / 4096 % 64).toUInt8 = b at hb ⊢
    have hs : isSecond a b = true := by
      rw [isSecond_iff, ha, hb]
      split_ifs <;> omega
    refine ⟨a, _, rfl,
      (next_four ha hb hmid hlast (by omega) hs (by omega) (by omega) r).trans ?_⟩
    rw [show n / 262144 * 262144 + n / 4096 % 64 * 4096 + n / 64 % 64 * 64 + n % 64 = n by omega,
      hc]

/-- An encoded text decodes to itself. -/
theorem decode?_encode (cs : List Char) : decode? (encode cs) = some cs := by
  have hp : pieces (encode cs) = cs.map .scalar := by
    induction cs with
    | nil => rw [encode, List.flatMap_nil, pieces, List.map_nil]
    | cons c cs ih =>
      obtain ⟨a, x, hc, hn⟩ := next_encodeChar c (encode cs)
      rw [encode, List.flatMap_cons, hc, List.cons_append, pieces]
      rw [show List.flatMap encodeChar cs = encode cs from rfl, hn, List.map_cons, ih]
  rw [decode?, hp]
  clear hp
  induction cs with
  | nil => rfl
  | cons c cs ih => simp [List.mapM_cons, ih, Piece.scalar?]

@[simp] theorem encode_nil : encode [] = [] := rfl

@[simp] theorem encode_cons (c : Char) (cs : List Char) :
    encode (c :: cs) = encodeChar c ++ encode cs := by
  rw [encode, List.flatMap_cons, encode]

@[simp] theorem encode_append (cs ds : List Char) :
    encode (cs ++ ds) = encode cs ++ encode ds := by
  rw [encode, List.flatMap_append, encode, encode]

/-! ## ASCII characters -/

/-- An ASCII character is one byte. -/
theorem encodeChar_ascii {c : Char} (h : c.toNat < 0x80) : encodeChar c = [ascii c] := by
  rw [encodeChar, if_pos h]
  rfl

/-- No byte of another character is ASCII. -/
theorem le_of_mem_encodeChar {c : Char} (h : 0x80 ≤ c.toNat) {b : UInt8} (hb : b ∈ encodeChar c) :
    0x80 ≤ b.toNat := by
  have hv := toNat_char c
  unfold encodeChar at hb
  dsimp only at hb
  generalize c.toNat = n at h hv hb
  rw [if_neg (by omega)] at hb
  split_ifs at hb <;> simp only [List.mem_cons, List.not_mem_nil, or_false] at hb
  · rcases hb with rfl | rfl <;> rw [toNat_toUInt8 (by omega)] <;> omega
  · rcases hb with rfl | rfl | rfl <;> rw [toNat_toUInt8 (by omega)] <;> omega
  · rcases hb with rfl | rfl | rfl | rfl <;> rw [toNat_toUInt8 (by omega)] <;> omega

/-- The bytes of a character after its first continue a sequence. -/
theorem isTail_of_encodeChar {c : Char} {a : UInt8} {x : List UInt8} (h : encodeChar c = a :: x) :
    ∀ t ∈ x, isTail t = true := by
  have htail : ∀ n < 64, isTail (0x80 + n).toUInt8 = true := by decide
  intro t ht
  unfold encodeChar at h
  dsimp only at h
  generalize c.toNat = n at h
  split_ifs at h <;> cases h <;> simp only [List.mem_cons, List.not_mem_nil, or_false] at ht
  · rw [ht]
    exact htail _ (by omega)
  · rcases ht with rfl | rfl <;> exact htail _ (by omega)
  · rcases ht with rfl | rfl | rfl <;> exact htail _ (by omega)

/-- No sequence begins with another one. -/
theorem encodeChar_append_inj {c d : Char} {r r' : List UInt8}
    (h : encodeChar c ++ r = encodeChar d ++ r') : c = d ∧ r = r' := by
  obtain ⟨a, x, hc, hnc⟩ := next_encodeChar c r
  obtain ⟨b, y, hd, hnd⟩ := next_encodeChar d r'
  rw [hc, hd, List.cons_append, List.cons_append, List.cons.injEq] at h
  rw [h.1, h.2, hnd] at hnc
  cases hnc
  exact ⟨rfl, rfl⟩

/-- No two texts are encoded alike. -/
theorem encode_injective : Function.Injective encode := by
  intro cs ds h
  exact Option.some.inj ((decode?_encode cs).symm.trans (h ▸ decode?_encode ds))

end Utf8

end ProtoJson
