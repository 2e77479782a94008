import ProtoJson.MapKey
import ProtoJson.Proofs.Grammar.NumberLiteral
import ProtoJson.Proofs.Grammar.Tree
import ProtoJson.Proofs.Text.Base64

/-!
# What a buffer holds

Each writer appends a text to what a buffer holds, whatever room is left in it. For numbers and
strings this is the text of a token of RFC 8259.
-/

namespace ProtoJson

open Grammar

namespace Buffer

/-! ## Bytes and characters -/

@[simp] theorem toList_empty : empty.toList = [] := rfl

@[simp] theorem toList_reset (b : Buffer) : b.reset.toList = [] := rfl

@[simp] theorem toList_reserve (b : Buffer) (n : Nat) : (b.reserve n).toList = b.toList := by
  unfold reserve
  split <;> rfl

@[simp] theorem toList_append (b : Buffer) (bytes : List UInt8) :
    (b.append bytes).toList = b.toList ++ bytes := by
  simp [append, toList]

@[simp] theorem toList_write (b : Buffer) (bytes : List UInt8) :
    (b.write bytes).toList = b.toList ++ bytes := by
  rw [write, toList_append, toList_reserve]

@[simp] theorem toList_writeByte (b : Buffer) (byte : UInt8) :
    (b.writeByte byte).toList = b.toList ++ [byte] := toList_write b [byte]

@[simp] theorem toList_writeChars (b : Buffer) (cs : List Char) :
    (b.writeChars cs).toList = b.toList ++ Utf8.encode cs := toList_write b _

/-! ## Escapes -/

section

variable {b : Buffer} {run r : List UInt8}

/-- A byte is held back if it needs no escape and begins no line separator. -/
theorem writeRuns_keep {x : UInt8} (hplain : x < 0x80 → Escape.isPlainByte x = true)
    (hseparator : ∀ z, z = 0xA8 ∨ z = 0xA9 → ∀ r', x :: r ≠ 0xE2 :: 0x80 :: z :: r') :
    b.writeRuns run (x :: r) = b.writeRuns (x :: run) r := by
  rw [writeRuns, if_neg]
  · simpa using hplain
  · rintro r' rfl rfl
    exact hseparator _ (.inl rfl) r' rfl
  · rintro r' rfl rfl
    exact hseparator _ (.inr rfl) r' rfl

/-- The bytes that continue a sequence are held back, whatever stands before them. -/
theorem writeRuns_tails {xs : List UInt8} (h : ∀ x ∈ xs, Utf8.isTail x = true) :
    b.writeRuns run (xs ++ r) = b.writeRuns (xs.reverse ++ run) r := by
  induction xs generalizing run with
  | nil => rfl
  | cons x xs ih =>
    have hx := (Utf8.isTail_iff x).1 (h x (by simp))
    rw [List.cons_append, writeRuns_keep, ih fun y hy => h y (by simp [hy])]
    · simp
    · intro hlt
      rw [UInt8.lt_iff_toNat_lt] at hlt
      exact absurd hlt (Nat.not_lt.2 hx.1)
    · rintro z - r' heq
      rw [(List.cons.inj heq).1] at hx
      revert hx
      decide

/-- The ASCII bytes that need no escape are those of the characters that stand for themselves, and
the others have the escapes of their characters. -/
theorem isPlainByte_ascii {c : Char} (hc : c.toNat < 0x80) :
    (Escape.isPlainByte (ascii c) = true ↔ Escape.escapeChar c = [c]) ∧
      (Escape.isPlainByte (ascii c) = false →
        Escape.escapeByte (ascii c) = Utf8.encode (Escape.escapeChar c)) := by
  have key : ∀ i < 0x80, let c := Char.ofNat i
      (Escape.isPlainByte (ascii c) = true ↔ Escape.escapeChar c = [c]) ∧
        (Escape.isPlainByte (ascii c) = false →
          Escape.escapeByte (ascii c) = Utf8.encode (Escape.escapeChar c)) := by
    decide +kernel
  have hkey := key c.toNat hc
  rwa [Char.ofNat_toNat] at hkey

/-- A character that needs no escape is held back as a whole. -/
theorem writeRuns_plain {c : Char} (h : Escape.escapeChar c = [c]) :
    b.writeRuns run (Utf8.encodeChar c ++ r)
      = b.writeRuns ((Utf8.encodeChar c).reverse ++ run) r := by
  obtain ⟨a, x, hc, -⟩ := Utf8.next_encodeChar c r
  have hfirst : b.writeRuns run (a :: (x ++ r)) = b.writeRuns (a :: run) (x ++ r) := by
    refine writeRuns_keep (fun hlt => ?_) fun z hz r' heq => ?_
    · by_cases hascii : c.toNat < 0x80
      · rw [Utf8.encodeChar_ascii hascii, List.cons.injEq] at hc
        rw [← hc.1]
        exact (isPlainByte_ascii hascii).1.2 h
      · have hle := Utf8.le_of_mem_encodeChar (b := a) (Nat.le_of_not_lt hascii) (by simp [hc])
        rw [UInt8.lt_iff_toNat_lt] at hlt
        exact absurd hlt (Nat.not_lt.2 hle)
    · -- The bytes of a line separator would be those of `c`, which needs no escape.
      rw [← List.cons_append, ← hc] at heq
      rcases hz with rfl | rfl
      · obtain ⟨rfl, -⟩ := Utf8.encodeChar_append_inj (d := '\u2028') heq
        exact absurd h (by decide)
      · obtain ⟨rfl, -⟩ := Utf8.encodeChar_append_inj (d := '\u2029') heq
        exact absurd h (by decide)
  rw [hc, List.cons_append, hfirst, writeRuns_tails (Utf8.isTail_of_encodeChar hc)]
  simp

/-- Beyond ASCII, only the line separators need an escape. -/
theorem eq_separator_of_escapeChar_ne {c : Char} (hascii : ¬ c.toNat < 0x80)
    (h : Escape.escapeChar c ≠ [c]) : c = '\u2028' ∨ c = '\u2029' := by
  by_contra hne
  rw [not_or] at hne
  have hchar : ∀ d : Char, d.toNat < 0x80 → c ≠ d := by
    rintro d hd rfl
    exact hascii hd
  have hcontrol : ¬ c.toNat < 0x20 := by omega
  exact h (by simp [Escape.escapeChar, hne, hchar, hcontrol])

/-- A character that needs an escape is written as its escape, after what is held back. -/
theorem writeRuns_escaped {c : Char} (h : Escape.escapeChar c ≠ [c]) : ∃ b' : Buffer,
    b.writeRuns run (Utf8.encodeChar c ++ r) = b'.writeRuns [] r ∧
      b'.toList = b.toList ++ (run.reverse ++ Utf8.encode (Escape.escapeChar c)) := by
  by_cases hascii : c.toNat < 0x80
  · obtain ⟨hplain, hescape⟩ := isPlainByte_ascii hascii
    have hneeds : Escape.isPlainByte (ascii c) = false := by
      rw [Bool.eq_false_iff]
      exact fun hp => h (hplain.1 hp)
    have hlt : (ascii c < 0x80) := by
      rw [UInt8.lt_iff_toNat_lt, toNat_ascii (by omega)]
      exact hascii
    refine ⟨(b.write run.reverse).write (Escape.escapeByte (ascii c)), ?_, ?_⟩
    · rw [Utf8.encodeChar_ascii hascii, List.singleton_append, writeRuns, if_pos]
      · simp [hneeds, hlt]
      all_goals
        rintro r' heq -
        rw [heq] at hlt
        revert hlt
        decide
    · rw [toList_write, toList_write, hescape hneeds, List.append_assoc]
  · -- The two separators share all but the last digit of their escapes.
    have hwrite : ∀ (d : UInt8) (escape : List UInt8), escape = Utf8.ofString "\\u202" ++ [d] →
        (((b.write run.reverse).writeRaw "\\u202").writeByte d).toList
          = b.toList ++ (run.reverse ++ escape) := by
      rintro d escape rfl
      rw [toList_writeByte, writeRaw, toList_writeChars, toList_write, Utf8.ofString]
      simp
    rcases eq_separator_of_escapeChar_ne hascii h with rfl | rfl
    · exact ⟨_, rfl, hwrite (ascii '8') _ (by decide)⟩
    · exact ⟨_, rfl, hwrite (ascii '9') _ (by decide)⟩

end

/-- What is written is what is held back, and then the escape of each character. -/
theorem toList_writeRuns (cs : List Char) (run : List UInt8) (b : Buffer) :
    (b.writeRuns run (Utf8.encode cs)).toList
      = b.toList ++ (run.reverse ++ Utf8.encode (Escape.escape cs)) := by
  induction cs generalizing run b with
  | nil => rw [Utf8.encode_nil, writeRuns, toList_write, Escape.escape, List.flatMap_nil,
      Utf8.encode_nil, List.append_nil]
  | cons c cs ih =>
    rw [Utf8.encode_cons, Escape.escape, List.flatMap_cons, Utf8.encode_append]
    by_cases h : Escape.escapeChar c = [c]
    · rw [writeRuns_plain h, ih, h]
      simp [Escape.escape]
    · obtain ⟨b', hb, hlist⟩ := @writeRuns_escaped b run (Utf8.encode cs) c h
      rw [hb, ih, hlist]
      simp [Escape.escape]

@[simp] theorem toList_writeEscapedChars (b : Buffer) (cs : List Char) :
    (b.writeEscapedChars cs).toList = b.toList ++ Utf8.encode (Escape.escape cs) := by
  rw [writeEscapedChars, toList_writeRuns, toList_reserve]
  rfl

@[simp] theorem toList_writeEscaped (b : Buffer) (s : String) :
    (b.writeEscaped s).toList = b.toList ++ Utf8.encode (Escape.escape s.toList) :=
  toList_writeEscapedChars b s.toList

/-- The bytes of a text are escaped as its characters are, one by one. So no two texts are escaped
alike, and texts may be escaped piece by piece. -/
theorem writeEscaped_appends_escapes :
    (∀ (b : Buffer) (s : String), (b.writeEscaped s).toList
      = b.toList ++ s.toList.flatMap fun c => Utf8.encode (Escape.escapeChar c)) ∧
    (∀ b : Buffer, Function.Injective fun s => (b.writeEscaped s).toList) ∧
    ∀ (b : Buffer) (s t : String),
      ((b.writeEscaped s).writeEscaped t).toList = (b.writeEscaped (s ++ t)).toList := by
  have hwhole : ∀ cs : List Char, Utf8.encode (Escape.escape cs)
      = cs.flatMap fun c => Utf8.encode (Escape.escapeChar c) := fun cs => List.flatMap_assoc
  refine ⟨fun b s => ?_, fun b s t h => ?_, fun b s t => ?_⟩
  · rw [toList_writeEscaped, hwhole]
  · simp only [toList_writeEscaped, List.append_cancel_left_eq] at h
    exact String.toList_injective (StringLiteral.escape_injective (Utf8.encode_injective h))
  · rw [toList_writeEscaped, toList_writeEscaped, toList_writeEscaped, List.append_assoc, hwhole,
      hwhole, hwhole, String.toList_append, List.flatMap_append]

/-! ## Tokens -/

theorem toList_writeQuoted (b : Buffer) (s : String) :
    (b.writeQuoted s).toList = b.toList ++ Quotation.bytes (StringLiteral.ofString s) := by
  have hraw : Quotation.raw (StringLiteral.ofString s) = Utf8.encode (Escape.escape s.toList) := by
    rw [← StringLiteral.source_ofString]
    rfl
  rw [writeQuoted, toList_writeByte, toList_writeEscaped, toList_writeByte, Quotation.bytes, hraw]
  simp

theorem toList_writeBase64 (b : Buffer) (bytes : List UInt8) :
    (b.writeBase64 bytes).toList = b.toList ++ Quotation.bytes (StringLiteral.ofBase64 bytes) := by
  rw [writeBase64, toList_append, toList_write, toList_append, toList_reserve, Quotation.bytes,
    StringLiteral.raw_ofBase64]
  simp

theorem toList_writeBool (b : Buffer) (v : Bool) :
    (b.writeBool v).toList
      = b.toList ++ (Tree.bool v : Tree NumberLiteral StringLiteral).bytes := by
  rw [writeBool, writeRaw, toList_writeChars]
  cases v <;> rfl

theorem toList_writeInteger (b : Buffer) (v : Int) :
    (b.writeInteger v).toList = b.toList ++ Numeral.bytes (NumberLiteral.ofInt v) := by
  rw [writeInteger, toList_writeChars, ← NumberLiteral.chars_ofInt]
  rfl

theorem toList_writeBinary {fmt : BinaryFormat} (hf : fmt.IsInterchange) (b : Buffer)
    {x : Binary fmt} (hx : x.isFinite = true) :
    (b.writeBinary x).toList = b.toList ++ Numeral.bytes (NumberLiteral.ofBinary x) := by
  rw [writeBinary, toList_writeChars, ← NumberLiteral.chars_ofBinary hf hx]
  rfl

/-! ## Containers -/

/-- Whether a comma is taken back depends on the content alone. -/
theorem toList_dropComma (b : Buffer) : b.dropComma.toList =
    if 2 ≤ b.toList.length ∧ b.toList.getLast? = some (ascii ',') then b.toList.dropLast
    else b.toList := by
  have hback : b.bytes.back? = b.toList.getLast? := by
    rw [Array.back?_eq_getElem?, ← Array.getElem?_toList, ← Array.length_toList,
      ← List.getLast?_eq_getElem?]
    rfl
  have hsize : b.size = b.toList.length := Array.length_toList.symm
  rw [dropComma, hback, hsize]
  split
  · exact Array.toList_pop
  · rfl

/-- A bracket that no comma follows is kept. -/
theorem toList_dropComma_open {b : Buffer} {x : List UInt8} {c : UInt8}
    (h : b.toList = x ++ [c]) (hc : c ≠ ascii ',') : b.dropComma.toList = x ++ [c] := by
  rw [toList_dropComma, h, List.getLast?_concat, if_neg fun hb => hc (Option.some.inj hb.2)]

/-- The comma after the last item is taken back. -/
theorem toList_dropComma_comma {b : Buffer} {x : List UInt8} (h : b.toList = x ++ [ascii ','])
    (hx : x ≠ []) : b.dropComma.toList = x := by
  have hlength : 2 ≤ (x ++ [ascii ',']).length := by
    have hpos := List.length_pos_iff.2 hx
    simp
    omega
  rw [toList_dropComma, h, if_pos ⟨hlength, List.getLast?_concat⟩, List.dropLast_concat]

end Buffer

end ProtoJson
