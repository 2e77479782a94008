import ProtoJson.Proofs.Reader.Token
import ProtoJson.Proofs.Text.Buffer
import ProtoJson.Proofs.Text.Repair

/-!
# Reading escaped bytes

Any bytes are written as a string of RFC 8259: a character as its escape, and each byte outside of
the characters as the escape of U+FFFD. A reader that decodes escapes takes this string as a whole
and gives the text of the bytes.
-/

namespace ProtoJson

open Grammar

namespace Grammar

/-! ## Strings of bytes -/

namespace StringLiteral

/-- The parts that a piece is written as. -/
def partsOf : Utf8.Piece → List StringPart
  | .scalar c => [partOf c]
  | .malformed bytes => bytes.map fun _ => .unit (.ofNat 0xFFFD)

/-- The string of any bytes as it is written. -/
def ofBytes (bytes : List UInt8) : StringLiteral := ⟨(Utf8.pieces bytes).flatMap partsOf⟩

/-- U+FFFD is no half of a pair. -/
theorem meaningOf_replacement (r : List StringPart) :
    meaningOf (.unit (.ofNat 0xFFFD) :: r) = Utf8.replacement :: meaningOf r := by
  have hv : (CodeUnit.ofNat 0xFFFD).value = 0xFFFD := CodeUnit.value_ofNat (by decide)
  rw [meaningOf, hv, if_neg (by decide), if_neg (by decide)]
  rfl

theorem meaningOf_partsOf (p : Utf8.Piece) (r : List StringPart) :
    meaningOf (partsOf p ++ r) = p.repaired ++ meaningOf r := by
  cases p with
  | scalar c => exact meaningOf_partOf c r
  | malformed bytes =>
    rw [partsOf, Utf8.Piece.repaired]
    induction bytes with
    | nil => rfl
    | cons b bytes ih =>
      rw [List.map_cons, List.cons_append, meaningOf_replacement, ih, List.map_cons,
        List.cons_append]

/-- The string of bytes stands for their text. -/
theorem meaningOf_ofBytes (bytes : List UInt8) :
    meaningOf (ofBytes bytes).parts = (Utf8.pieces bytes).flatMap Utf8.Piece.repaired := by
  rw [ofBytes]
  induction Utf8.pieces bytes with
  | nil => rw [List.flatMap_nil, List.flatMap_nil, meaningOf]
  | cons p ps ih => rw [List.flatMap_cons, meaningOf_partsOf, ih, List.flatMap_cons]

theorem sourceOf_append (ps qs : List StringPart) :
    sourceOf (ps ++ qs) = sourceOf ps ++ sourceOf qs := List.flatMap_append

end StringLiteral

/-! ## Characters between the quotes -/

/-- What may stand between the quotes of a string wherever the string stands: UTF-8 in which control
characters, quotes and line separators are escaped. -/
structure IsCleanBody (body : List UInt8) : Prop where
  controls : ∀ b ∈ body, 0x20 ≤ b.toNat
  quotes : isStringBody body = true
  text : ∃ cs, Utf8.decode? body = some cs ∧ '\u2028' ∉ cs ∧ '\u2029' ∉ cs

theorem HexDigit.printable (d : HexDigit) : 0x20 ≤ d.char.toNat ∧ d.char.toNat < 0x80 := by
  have h := d.hex
  have key : ∀ {lo hi : Char}, 0x20 ≤ lo.toNat → hi.toNat < 0x80 → lo ≤ d.char → d.char ≤ hi →
      0x20 ≤ d.char.toNat ∧ d.char.toNat < 0x80 :=
    fun hlo hhi hle hge => ⟨hlo.trans (UInt32.le_iff_toNat_le.1 hle),
      (UInt32.le_iff_toNat_le.1 hge).trans_lt hhi⟩
  unfold hexValue? at h
  split_ifs at h with hdigit hlower hupper
  · exact key (by decide) (by decide) hdigit.1 hdigit.2
  · exact key (by decide) (by decide) hlower.1 hlower.2
  · exact key (by decide) (by decide) hupper.1 hupper.2

theorem ShortEscape.printable (e : ShortEscape) : 0x20 ≤ e.mark.toNat ∧ e.mark.toNat < 0x80 := by
  cases e <;> decide

/-- Only a character that stands for itself may be out of ASCII. -/
theorem StringPart.mem_source {p : StringPart} {c : Char} (h : c ∈ p.source) :
    (∃ hc, p = .plain c hc) ∨ (0x20 ≤ c.toNat ∧ c.toNat < 0x80) := by
  cases p with
  | plain d hd =>
    obtain rfl : c = d := List.mem_singleton.1 h
    exact .inl ⟨hd, rfl⟩
  | short e =>
    right
    simp only [StringPart.source, List.mem_cons, List.not_mem_nil, or_false] at h
    rcases h with rfl | rfl
    · decide
    · exact e.printable
  | unit u =>
    right
    simp only [StringPart.source, CodeUnit.source, List.mem_cons, List.not_mem_nil, or_false] at h
    rcases h with rfl | rfl | rfl | rfl | rfl | rfl
    · decide
    · decide
    all_goals exact HexDigit.printable _

namespace StringLiteral

theorem needsUnit_eq_false_iff (c : Char) :
    needsUnit c = false ↔ 0x20 ≤ c.toNat ∧ c ≠ '\u2028' ∧ c ≠ '\u2029' := by
  simp [needsUnit, and_assoc]

theorem needsUnit_ascii {c : Char} (h : 0x20 ≤ c.toNat ∧ c.toNat < 0x80) : needsUnit c = false := by
  rw [needsUnit_eq_false_iff]
  refine ⟨h.1, ?_, ?_⟩ <;> rintro rfl <;> revert h <;> decide

/-- What is left as it is needs no escape. -/
theorem needsUnit_of_partOf {c d : Char} {hd : IsPlain d} (h : partOf c = .plain d hd) :
    needsUnit d = false := by
  unfold partOf at h
  split_ifs at h with h₁ h₂ h₃ h₄ h₅ h₆
  cases h
  simpa using h₆

/-- No character of what is written needs an escape of its own. -/
theorem needsUnit_of_mem_source_partOf {c d : Char} (h : d ∈ (partOf c).source) :
    needsUnit d = false := by
  obtain ⟨hd, hp⟩ | hd := StringPart.mem_source h
  · exact needsUnit_of_partOf hp
  · exact needsUnit_ascii hd

theorem needsUnit_of_mem_sourceOf_partsOf {p : Utf8.Piece} {d : Char}
    (h : d ∈ sourceOf (partsOf p)) : needsUnit d = false := by
  obtain ⟨part, hpart, hd⟩ := List.mem_flatMap.1 h
  cases p with
  | scalar c =>
    obtain rfl : part = partOf c := List.mem_singleton.1 hpart
    exact needsUnit_of_mem_source_partOf hd
  | malformed bytes =>
    obtain ⟨-, -, rfl⟩ := List.mem_map.1 hpart
    obtain ⟨hd, hp⟩ | hd := StringPart.mem_source hd
    · cases hp
    · exact needsUnit_ascii hd

end StringLiteral

/-- A string is clean if no character of it needs an escape of its own. -/
theorem isCleanBody_of_needsUnit {q : StringLiteral}
    (h : ∀ c ∈ q.source, StringLiteral.needsUnit c = false) : IsCleanBody (Quotation.raw q) := by
  simp only [StringLiteral.needsUnit_eq_false_iff] at h
  refine ⟨?_, Quotation.isBody q, q.source, Utf8.decode?_encode _, fun hc => (h _ hc).2.1 rfl,
    fun hc => (h _ hc).2.2 rfl⟩
  intro b hb
  obtain ⟨c, hc, hb⟩ := List.mem_flatMap.1 hb
  -- The bytes of a character out of ASCII are at least `0x80`.
  by_cases hlt : c.toNat < 0x80
  · rw [Utf8.encodeChar_ascii hlt, List.mem_singleton] at hb
    rw [hb, toNat_ascii (by omega)]
    exact (h c hc).1
  · have := Utf8.le_of_mem_encodeChar (Nat.le_of_not_lt hlt) hb
    omega

theorem isCleanBody_ofBytes (bytes : List UInt8) :
    IsCleanBody (Quotation.raw (StringLiteral.ofBytes bytes)) := by
  refine isCleanBody_of_needsUnit fun c hc => ?_
  obtain ⟨part, hpart, hc⟩ := List.mem_flatMap.1 hc
  obtain ⟨p, -, hp⟩ := List.mem_flatMap.1 hpart
  exact StringLiteral.needsUnit_of_mem_sourceOf_partsOf (List.mem_flatMap.2 ⟨part, hp, hc⟩)

theorem isCleanBody_ofString (s : String) :
    IsCleanBody (Quotation.raw (StringLiteral.ofString s)) := by
  refine isCleanBody_of_needsUnit fun c hc => ?_
  obtain ⟨part, hpart, hc⟩ := List.mem_flatMap.1 hc
  obtain ⟨d, -, rfl⟩ := List.mem_map.1 hpart
  exact StringLiteral.needsUnit_of_mem_source_partOf hc

end Grammar

/-! ## Writing -/

namespace Buffer

open StringLiteral

theorem toList_foldl_writeRaw (bytes : List UInt8) (b : Buffer) :
    (bytes.foldl (fun b _ => b.writeRaw "\\ufffd") b).toList
      = b.toList ++ Utf8.encode (sourceOf (partsOf (.malformed bytes))) := by
  induction bytes generalizing b with
  | nil => simp [partsOf]
  | cons byte bytes ih =>
    have hsource : (StringPart.unit (.ofNat 0xFFFD)).source = "\\ufffd".toList := by decide
    rw [List.foldl_cons, ih, writeRaw, toList_writeChars, partsOf, partsOf, List.map_cons,
      sourceOf_cons, Utf8.encode_append, hsource, List.append_assoc]

/-- The characters that no byte outside of them has ended are held back. -/
theorem toList_writePieces (ps : List Utf8.Piece) (run : List Char) (b : Buffer) :
    (b.writePieces run ps).toList
      = b.toList ++ Utf8.encode (Escape.escape run.reverse ++ sourceOf (ps.flatMap partsOf)) := by
  -- A character joins the run; other bytes write the run out and begin a new one.
  induction ps generalizing run b with
  | nil => simp [writePieces]
  | cons p ps ih =>
    rw [List.flatMap_cons, sourceOf_append]
    cases p with
    | scalar c =>
      have hc : Escape.escape [c] = sourceOf (partsOf (.scalar c)) :=
        (sourceOf_map_partOf [c]).symm
      rw [writePieces, ih, List.reverse_cons, ← hc]
      simp [Escape.escape]
    | malformed bytes =>
      rw [writePieces, ih, toList_foldl_writeRaw, toList_writeEscapedChars]
      simp [Escape.escape]

theorem toList_writeEscapedBytes (b : Buffer) (bytes : List UInt8) :
    (b.writeEscapedBytes bytes).toList = b.toList ++ Quotation.raw (StringLiteral.ofBytes bytes) :=
  toList_writePieces (Utf8.pieces bytes) [] b

/-- Both bytes of a sequence that is cut short are replaced. -/
example : (empty.writeEscapedBytes [0xE2, 0x82, 0x61]).toList
    = Utf8.ofString "\\ufffd\\ufffda" := by decide +kernel

end Buffer

/-! ## Reading -/

namespace Reader

/-- Whether a new reader that decodes escapes reads the input as a string, to its end. -/
def ReadsAs (input : List UInt8) (s : String) : Prop :=
  ∀ decodeBase64, ∃ s', (ofBytes input ⟨true, decodeBase64⟩).string = (.ok s, s') ∧
    s'.rest = [] ∧ s'.offset = input.length

/-- A new reader that decodes escapes reads a string in front as what it stands for. -/
theorem string_quotation (q : StringLiteral) {r : List UInt8} (hr : EndsRun r)
    (decodeBase64 : Bool) :
    ∃ s', (ofBytes (Quotation.bytes q ++ r) ⟨true, decodeBase64⟩).string = (.ok q.meaning, s') ∧
      s'.rest = r ∧ s'.offset = (Quotation.bytes q).length := by
  have h : (ofBytes (Quotation.bytes q ++ r) ⟨true, decodeBase64⟩).Ahead
      ((Tree.string q : Tree NumberLiteral StringLiteral).bytes ++ r) :=
    ⟨rfl, [], .free .empty, by simp [ofBytes, Tree.bytes]⟩
  exact ⟨_, string_tree _ h hr, rfl, by simp [goTo, ofBytes]⟩

/-- A string is read as what it stands for. -/
theorem readsAs_bytes (q : StringLiteral) : ReadsAs (Quotation.bytes q) q.meaning := by
  intro decodeBase64
  have hend : EndsRun [] := fun b x hx => by cases hx
  have hread := string_quotation q hend decodeBase64
  rwa [List.append_nil] at hread

/-- Any bytes are written as a clean string that is read as their text, and a string as one that is
read as itself. -/
theorem string_writeEscapedBytes :
    (∀ bytes, ∃ body cs, (∀ b : Buffer, (b.writeEscapedBytes bytes).toList = b.toList ++ body) ∧
      (∀ ds, Utf8.Repairs bytes ds ↔ ds = cs) ∧
      ReadsAs (ascii '"' :: (body ++ [ascii '"'])) (String.ofList cs) ∧ IsCleanBody body) ∧
    ∀ s, ∃ body, (∀ b : Buffer,
        (b.writeQuoted s).toList = b.toList ++ ascii '"' :: (body ++ [ascii '"'])) ∧
      ReadsAs (ascii '"' :: (body ++ [ascii '"'])) s ∧ IsCleanBody body := by
  constructor
  · intro bytes
    have hrepairs := Utf8.repairs_pieces bytes
    rw [← StringLiteral.meaningOf_ofBytes] at hrepairs
    exact ⟨_, _, fun b => b.toList_writeEscapedBytes bytes,
      fun ds => ⟨fun h => h.unique hrepairs, fun h => h ▸ hrepairs⟩,
      readsAs_bytes (.ofBytes bytes), isCleanBody_ofBytes bytes⟩
  · intro s
    have hread := readsAs_bytes (.ofString s)
    rw [StringLiteral.meaning_ofString] at hread
    exact ⟨_, fun b => b.toList_writeQuoted s, hread, isCleanBody_ofString s⟩

end Reader

end ProtoJson
