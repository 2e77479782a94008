import ProtoJson.Proofs.Text.Utf8

/-!
# Bytes as text

Any bytes are a text, if every byte that belongs to no UTF-8 sequence is read as U+FFFD. There is
one way to do so, because no sequence begins with another one, and the pieces that bytes are cut
into show it.
-/

namespace ProtoJson.Utf8

/-- The text of any bytes: sequences of UTF-8 are kept, and each byte outside of one is replaced. -/
inductive Repairs : List UInt8 → List Char → Prop where
  | nil : Repairs [] []
  | keep (c : Char) {bs : List UInt8} {cs : List Char} (h : Repairs bs cs) :
    Repairs (encodeChar c ++ bs) (c :: cs)
  | replace {b : UInt8} {bs : List UInt8} {cs : List Char}
    (hb : ∀ c rest, b :: bs ≠ encodeChar c ++ rest) (h : Repairs bs cs) :
    Repairs (b :: bs) (replacement :: cs)

/-! ## Sequences of characters -/

theorem isTail_of_isSecond {a b : UInt8} (h : isSecond a b = true) : isTail b = true := by
  rw [isSecond_iff] at h
  rw [isTail_iff]
  split_ifs at h <;> omega

/-- The sequence of a character that is made from a valid number. -/
theorem encodeChar_ofNat {n : Nat} (h : n < 0xD800 ∨ (0xDFFF < n ∧ n < 0x110000)) :
    encodeChar (Char.ofNat n) =
      if n < 0x80 then [n.toUInt8]
      else if n < 0x800 then [(0xC0 + n / 64).toUInt8, (0x80 + n % 64).toUInt8]
      else if n < 0x10000 then
        [(0xE0 + n / 4096).toUInt8, (0x80 + n / 64 % 64).toUInt8, (0x80 + n % 64).toUInt8]
      else
        [(0xF0 + n / 262144).toUInt8, (0x80 + n / 4096 % 64).toUInt8,
          (0x80 + n / 64 % 64).toUInt8, (0x80 + n % 64).toUInt8] := by
  have hn : (Char.ofNat n).toNat = n := by
    rw [Char.ofNat, dif_pos h]
    rfl
  rw [encodeChar, hn]

theorem encodeChar_one {a : UInt8} (h : a.toNat < 0x80) :
    encodeChar (Char.ofNat a.toNat) = [a] := by
  rw [encodeChar_ofNat (by omega), if_pos h, toUInt8_eq rfl]

theorem encodeChar_two {a b : UInt8} (ha : 0xC2 ≤ a.toNat ∧ a.toNat ≤ 0xDF)
    (hb : isTail b = true) :
    encodeChar (Char.ofNat ((a.toNat - 0xC0) * 64 + tailBits b)) = [a, b] := by
  rw [isTail_iff] at hb
  unfold tailBits
  rw [encodeChar_ofNat (by omega), if_neg (by omega), if_pos (by omega),
    toUInt8_eq (b := a) (by omega), toUInt8_eq (b := b) (by omega)]

theorem encodeChar_three {a b c : UInt8} (ha : 0xE0 ≤ a.toNat ∧ a.toNat ≤ 0xEF)
    (hb : isSecond a b = true) (hc : isTail c = true) :
    encodeChar (Char.ofNat ((a.toNat - 0xE0) * 4096 + tailBits b * 64 + tailBits c))
      = [a, b, c] := by
  have hb' : isTail b = true := isTail_of_isSecond hb
  -- Neither an overlong form nor a surrogate.
  have hvalid : 0x20 ≤ (a.toNat - 0xE0) * 64 + (b.toNat - 0x80) ∧
      ((a.toNat - 0xE0) * 64 + (b.toNat - 0x80) < 0x360 ∨
        0x380 ≤ (a.toNat - 0xE0) * 64 + (b.toNat - 0x80)) := by
    rw [isSecond_iff] at hb
    split_ifs at hb <;> omega
  rw [isTail_iff] at hb' hc
  unfold tailBits
  rw [encodeChar_ofNat (by omega), if_neg (by omega), if_neg (by omega), if_pos (by omega),
    toUInt8_eq (b := a) (by omega), toUInt8_eq (b := b) (by omega), toUInt8_eq (b := c) (by omega)]

theorem encodeChar_four {a b c d : UInt8} (ha : 0xF0 ≤ a.toNat ∧ a.toNat ≤ 0xF4)
    (hb : isSecond a b = true) (hc : isTail c = true) (hd : isTail d = true) :
    encodeChar (Char.ofNat ((a.toNat - 0xF0) * 262144 + tailBits b * 4096 + tailBits c * 64 +
      tailBits d)) = [a, b, c, d] := by
  have hb' : isTail b = true := isTail_of_isSecond hb
  -- Neither an overlong form nor a number above U+10FFFF.
  have hvalid : 0x10 ≤ (a.toNat - 0xF0) * 64 + (b.toNat - 0x80) ∧
      (a.toNat - 0xF0) * 64 + (b.toNat - 0x80) < 0x110 := by
    rw [isSecond_iff] at hb
    split_ifs at hb <;> omega
  rw [isTail_iff] at hb' hc hd
  unfold tailBits
  rw [encodeChar_ofNat (by omega), if_neg (by omega), if_neg (by omega), if_neg (by omega),
    toUInt8_eq (b := a) (by omega), toUInt8_eq (b := b) (by omega), toUInt8_eq (b := c) (by omega),
    toUInt8_eq (b := d) (by omega)]

/-- No sequence begins with a byte that continues one. -/
theorem ne_encodeChar_of_isTail {b : UInt8} (h : isTail b = true) (bs : List UInt8) (c : Char)
    (rest : List UInt8) : b :: bs ≠ encodeChar c ++ rest := by
  intro heq
  have hv := toNat_char c
  rw [isTail_iff] at h
  unfold encodeChar at heq
  dsimp only at heq
  generalize c.toNat = n at hv heq
  split_ifs at heq <;> rw [List.cons_append, List.cons.injEq] at heq <;>
    rw [heq.1, toNat_toUInt8 (by omega)] at h <;> omega

/-! ## Cutting off one piece -/

/-- A character that is cut off is the one whose sequence the bytes begin with. -/
theorem next_scalar {a : UInt8} {r r' : List UInt8} {c : Char}
    (h : next a r = (.scalar c, r')) : a :: r = encodeChar c ++ r' := by
  unfold next at h
  repeat' split at h
  -- One case is left for each length of a sequence.
  all_goals simp only [Prod.mk.injEq, Piece.scalar.injEq, reduceCtorEq, false_and] at h
  all_goals obtain ⟨rfl, rfl⟩ := h
  · next h₁ =>
    have ha : a.toNat < 0x80 := by simpa [UInt8.lt_iff_toNat_lt] using h₁
    rw [encodeChar_one ha, List.singleton_append]
  · next h₂ _ b r hb =>
    have ha : 0xC2 ≤ a.toNat ∧ a.toNat ≤ 0xDF := by simpa [UInt8.le_iff_toNat_le] using h₂
    rw [encodeChar_two ha hb, List.cons_append, List.singleton_append]
  · next h₃ _ b hb _ c r hc =>
    have ha : 0xE0 ≤ a.toNat ∧ a.toNat ≤ 0xEF := by simpa [UInt8.le_iff_toNat_le] using h₃
    rw [encodeChar_three ha hb hc, List.cons_append, List.cons_append, List.singleton_append]
  · next h₄ _ b hb _ c hc _ d r hd =>
    have ha : 0xF0 ≤ a.toNat ∧ a.toNat ≤ 0xF4 := by simpa [UInt8.le_iff_toNat_le] using h₄
    rw [encodeChar_four ha hb hc hd, List.cons_append, List.cons_append, List.cons_append,
      List.singleton_append]

/-- Bytes that are cut off as malformed are a first byte and others that continue a sequence. -/
theorem next_malformed {a : UInt8} {r r' bytes : List UInt8}
    (h : next a r = (.malformed bytes, r')) :
    ∃ tails, bytes = a :: tails ∧ r = tails ++ r' ∧ ∀ b ∈ tails, isTail b = true := by
  -- A sequence is cut short before its last byte, so three bytes of it are the most.
  have alone : ∀ x : List UInt8, ∃ tails, [a] = a :: tails ∧ x = tails ++ x ∧
      ∀ b ∈ tails, isTail b = true := fun x => ⟨[], rfl, rfl, by simp⟩
  have two : ∀ (b : UInt8) (x : List UInt8), isSecond a b = true →
      ∃ tails, [a, b] = a :: tails ∧ b :: x = tails ++ x ∧ ∀ b ∈ tails, isTail b = true :=
    fun b x hb => ⟨[b], rfl, rfl, by simp [isTail_of_isSecond hb]⟩
  have three : ∀ (b c : UInt8) (x : List UInt8), isSecond a b = true → isTail c = true →
      ∃ tails, [a, b, c] = a :: tails ∧ b :: c :: x = tails ++ x ∧
        ∀ b ∈ tails, isTail b = true :=
    fun b c x hb hc => ⟨[b, c], rfl, rfl, by simp [isTail_of_isSecond hb, hc]⟩
  unfold next at h
  repeat' split at h
  all_goals cases h
  all_goals first | exact alone _ | exact two _ _ ‹_› | exact three _ _ _ ‹_› ‹_›

/-! ## The text of any bytes -/

/-- The text of a piece. -/
def Piece.repaired : Piece → List Char
  | .scalar c => [c]
  | .malformed bytes => bytes.map fun _ => replacement

/-- No sequence stands at the front of bytes that are cut off as malformed. -/
theorem ne_encodeChar_of_next {a : UInt8} {r r' bytes : List UInt8}
    (h : next a r = (.malformed bytes, r')) (c : Char) (rest : List UInt8) :
    a :: r ≠ encodeChar c ++ rest := by
  intro heq
  obtain ⟨b, x, hc, hn⟩ := next_encodeChar c rest
  rw [hc, List.cons_append, List.cons.injEq] at heq
  rw [← heq.1, ← heq.2, h] at hn
  cases hn

/-- Bytes that continue a sequence are replaced where none was begun. -/
theorem Repairs.tails_append {tails bs : List UInt8} {cs : List Char}
    (ht : ∀ b ∈ tails, isTail b = true) (h : Repairs bs cs) :
    Repairs (tails ++ bs) (tails.map (fun _ => replacement) ++ cs) := by
  induction tails with
  | nil => exact h
  | cons b tails ih =>
    rw [List.forall_mem_cons] at ht
    exact .replace (ne_encodeChar_of_isTail ht.1 _) (ih ht.2)

/-- The pieces of bytes show their text. -/
theorem repairs_pieces (bs : List UInt8) : Repairs bs ((pieces bs).flatMap Piece.repaired) := by
  fun_induction pieces bs with
  | case1 => exact .nil
  | case2 a r ih =>
    rw [List.flatMap_cons]
    cases hn : next a r with
    | mk p r' =>
      rw [hn] at ih
      cases p with
      | scalar c =>
        rw [next_scalar hn]
        exact .keep c ih
      | malformed bytes =>
        obtain ⟨tails, rfl, rfl, ht⟩ := next_malformed hn
        exact .replace (ne_encodeChar_of_next hn) (ih.tails_append ht)

theorem encodeChar_ne_nil (c : Char) (r : List UInt8) : encodeChar c ++ r ≠ [] := by
  obtain ⟨a, x, hc, -⟩ := next_encodeChar c r
  rw [hc]
  exact List.cons_ne_nil a _

theorem Repairs.eq_nil {ds : List Char} (h : Repairs [] ds) : ds = [] := by
  generalize hbs : ([] : List UInt8) = bs at h
  cases h with
  | nil => rfl
  | keep c h => exact absurd hbs.symm (encodeChar_ne_nil c _)
  | replace hb h => cases hbs

/-- A sequence at the front is kept. -/
theorem Repairs.of_keep {c : Char} {bs : List UInt8} {ds : List Char}
    (h : Repairs (encodeChar c ++ bs) ds) : ∃ es, ds = c :: es ∧ Repairs bs es := by
  -- The constructors share the shape `b :: bs`, so the cases are told apart by the equation.
  generalize hbs : encodeChar c ++ bs = xs at h
  cases h with
  | nil => exact absurd hbs (encodeChar_ne_nil c bs)
  | keep d h =>
    obtain ⟨rfl, rfl⟩ := encodeChar_append_inj hbs
    exact ⟨_, rfl, h⟩
  | replace hb h => exact absurd hbs.symm (hb c bs)

/-- A byte that begins no sequence is replaced. -/
theorem Repairs.of_replace {b : UInt8} {bs : List UInt8} {ds : List Char}
    (h : Repairs (b :: bs) ds) (hb : ∀ c rest, b :: bs ≠ encodeChar c ++ rest) :
    ∃ es, ds = replacement :: es ∧ Repairs bs es := by
  generalize hbs : b :: bs = xs at h hb
  cases h with
  | nil => cases hbs
  | keep c h => exact absurd rfl (hb c _)
  | replace _ h =>
    cases hbs
    exact ⟨_, rfl, h⟩

/-- Bytes have only one text. -/
theorem Repairs.unique {bs : List UInt8} {cs ds : List Char} (h : Repairs bs cs)
    (h' : Repairs bs ds) : cs = ds := by
  induction h generalizing ds with
  | nil => exact h'.eq_nil.symm
  | keep c h ih =>
    obtain ⟨es, rfl, hes⟩ := h'.of_keep
    rw [ih hes]
  | replace hb h ih =>
    obtain ⟨es, rfl, hes⟩ := h'.of_replace hb
    rw [ih hes]

end ProtoJson.Utf8
