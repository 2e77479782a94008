import ProtoJson.Proofs.Reader.Token

/-!
# Recovery over well-formed text

The scan for the end of an item passes whole values, and outside all of them it stops in front of
the next comma or closing bracket. So the value of a container that may not be opened is passed
exactly.
-/

namespace ProtoJson

open Grammar

/-! ## The end of an item -/

/-- What may follow the last blank after an item. -/
def StopsItem (r : List UInt8) : Prop := ∃ b x, r = b :: x ∧ (b = ascii ',' ∨ Reader.IsCloser b)

theorem StopsItem.endsRun {r : List UInt8} (h : StopsItem r) : EndsRun r := by
  obtain ⟨b, x, rfl, rfl | rfl | rfl⟩ := h <;> exact EndsRun.cons (by decide) x

/-- Bytes that are no quotes and no brackets. -/
structure IsUnmarked (b : UInt8) : Prop where
  quote : b ≠ ascii '"'
  brace : b ≠ ascii '{'
  bracket : b ≠ ascii '['
  closeBrace : b ≠ ascii '}'
  closeBracket : b ≠ ascii ']'

instance (b : UInt8) : Decidable (IsUnmarked b) :=
  decidable_of_iff (b ≠ ascii '"' ∧ b ≠ ascii '{' ∧ b ≠ ascii '[' ∧ b ≠ ascii '}' ∧ b ≠ ascii ']')
    ⟨fun ⟨h₁, h₂, h₃, h₄, h₅⟩ => ⟨h₁, h₂, h₃, h₄, h₅⟩,
      fun h => ⟨h.quote, h.brace, h.bracket, h.closeBrace, h.closeBracket⟩⟩

/-- The scan for the end of an item passes these bytes one by one. -/
structure IsInert (b : UInt8) : Prop extends IsUnmarked b where
  comma : b ≠ ascii ','

instance (b : UInt8) : Decidable (IsInert b) :=
  decidable_of_iff (IsUnmarked b ∧ b ≠ ascii ',')
    ⟨fun ⟨h₁, h₂⟩ => ⟨h₁, h₂⟩, fun h => ⟨h.toIsUnmarked, h.comma⟩⟩

theorem isInert_of_blank (b : UInt8) (hb : isBlank b = true) : IsInert b := by
  revert b
  exact forall_byte (by decide +kernel)

theorem isInert_of_number (b : UInt8) (hb : TokenKind.isNumberByte b = true) : IsInert b := by
  revert b
  exact forall_byte (by decide +kernel)

variable {p d : Nat} {x : List UInt8}

/-- What was counted before is added. -/
theorem itemLength_add (p k d : Nat) (mode : QuoteMode) (xs : List UInt8) :
    itemLength (p + k) d mode xs = itemLength p d mode xs + k := by
  fun_induction itemLength p d mode xs with
  | case1 => rw [itemLength]
  | case2 p d b r ih => rw [itemLength, ← ih, Nat.add_right_comm]
  | case3 p d b r ih => rw [itemLength, ← ih, Nat.add_right_comm]
  | _ => all_goals simp_all [itemLength, Nat.add_right_comm]

theorem itemLength_inert {xs : List UInt8} (h : ∀ b ∈ xs, IsInert b) :
    itemLength p d .outside (xs ++ x) = itemLength (p + xs.length) d .outside x := by
  induction xs generalizing p with
  | nil => rfl
  | cons b xs ih =>
    have hb := h b (by simp)
    rw [List.cons_append, itemLength]
    simp only [hb.quote, hb.brace, hb.bracket, hb.closeBrace, hb.closeBracket, hb.comma, or_self,
      false_and, if_false]
    rw [ih fun c hc => h c (by simp [hc]), List.length_cons]
    congr 1
    omega

theorem itemLength_blanks (w : Blanks) :
    itemLength p d .outside (w.bytes ++ x) = itemLength (p + w.bytes.length) d .outside x :=
  itemLength_inert fun b hb => isInert_of_blank b (w.blank b hb)

/-- The scan leaves a string at its closing quote. -/
theorem itemLength_inside {raw : List UInt8} (h : isStringBody raw = true) :
    itemLength p d .inside (raw ++ ascii '"' :: x)
      = itemLength (p + raw.length + 1) d .outside x := by
  have hq : ascii '\\' ≠ ascii '"' := by decide
  fun_induction isStringBody raw generalizing p with
  | case1 =>
    rw [List.nil_append, itemLength, QuoteMode.afterInside, if_neg hq.symm, if_pos rfl]
    rfl
  | case2 => simp at h
  | case3 => simp at h
  | case4 c r' _ ih =>
    rw [List.cons_append, List.cons_append, itemLength, QuoteMode.afterInside, if_pos rfl,
      itemLength, ih h, List.length_cons, List.length_cons]
    congr 1
    omega
  | case5 b r' hb hb' ih =>
    rw [List.cons_append, itemLength, QuoteMode.afterInside, if_neg hb', if_neg hb, ih h,
      List.length_cons]
    congr 1
    omega

variable {ν σ : Type} [Numeral ν] [Quotation σ]

theorem itemLength_string (s : σ) :
    itemLength p d .outside (Quotation.bytes s ++ x)
      = itemLength (p + (Quotation.bytes s).length) d .outside x := by
  have hlen : (Quotation.bytes s).length = (Quotation.raw s).length + 2 := by
    simp [Quotation.bytes]
  rw [hlen, Quotation.bytes, List.cons_append, List.append_assoc, List.singleton_append, itemLength,
    if_pos rfl, itemLength_inside (Quotation.isBody s)]
  congr 1
  omega

theorem itemLength_open {b : UInt8} (hb : b = ascii '{' ∨ b = ascii '[') :
    itemLength p d .outside (b :: x) = itemLength (p + 1) (d + 1) .outside x := by
  have hq : b ≠ ascii '"' := by rcases hb with rfl | rfl <;> decide
  rw [itemLength, if_neg hq, if_pos hb]

theorem itemLength_close {b : UInt8} (hb : Reader.IsCloser b) :
    itemLength p (d + 1) .outside (b :: x) = itemLength (p + 1) d .outside x := by
  have hq : b ≠ ascii '"' := by rcases hb with rfl | rfl <;> decide
  have ho : ¬ (b = ascii '{' ∨ b = ascii '[') := by rcases hb with rfl | rfl <;> decide
  rw [itemLength, if_neg hq, if_neg ho, if_pos hb, if_neg (by omega)]
  rfl

theorem itemLength_closer {b : UInt8} (hb : Reader.IsCloser b) : itemLength p d .outside (b :: x)
    = if d = 0 then p else itemLength (p + 1) (d - 1) .outside x := by
  rcases hb with rfl | rfl <;> rfl

theorem itemLength_unmarked {b : UInt8} (hb : IsUnmarked b) : itemLength p d .outside (b :: x)
    = if b = ascii ',' ∧ d = 0 then p else itemLength (p + 1) d .outside x := by
  rw [itemLength]
  simp only [hb.quote, hb.brace, hb.bracket, hb.closeBrace, hb.closeBracket, or_self, if_false]

/-- A byte ends the item or is passed, whatever follows. -/
theorem itemLength_ends_or_passes (d : Nat) (mode : QuoteMode) (b : UInt8) :
    ((b = ascii ',' ∨ Reader.IsCloser b) ∧ ∀ p r, itemLength p d mode (b :: r) = p) ∨
      ∃ d' mode', ∀ p r, itemLength p d mode (b :: r) = itemLength (p + 1) d' mode' r := by
  cases mode with
  | escaped => exact .inr ⟨d, .inside, fun _ _ => rfl⟩
  | inside => exact .inr ⟨d, .afterInside b, fun _ _ => rfl⟩
  | outside =>
    simp only [itemLength]
    by_cases hquote : b = ascii '"'
    · exact .inr ⟨d, .inside, fun p r => by rw [if_pos hquote]⟩
    simp only [if_neg hquote]
    by_cases hopen : b = ascii '{' ∨ b = ascii '['
    · exact .inr ⟨d + 1, .outside, fun p r => by rw [if_pos hopen]⟩
    simp only [if_neg hopen]
    by_cases hclose : b = ascii '}' ∨ b = ascii ']'
    · simp only [if_pos hclose]
      by_cases hd : d = 0
      · exact .inl ⟨.inr hclose, fun p r => by rw [if_pos hd]⟩
      · exact .inr ⟨d - 1, .outside, fun p r => by rw [if_neg hd]⟩
    simp only [if_neg hclose]
    by_cases hcomma : b = ascii ',' ∧ d = 0
    · exact .inl ⟨.inl hcomma.1, fun p r => by rw [if_pos hcomma]⟩
    · exact .inr ⟨d, .outside, fun p r => by rw [if_neg hcomma]⟩

/-- Within a container, commas are passed. -/
theorem itemLength_leadingComma (first : Bool) :
    itemLength p (d + 1) .outside (leadingComma first ++ x)
      = itemLength (p + (leadingComma first).length) (d + 1) .outside x := by
  cases first with
  | true => rfl
  | false => rfl

theorem itemLength_stops {r : List UInt8} (h : StopsItem r) : itemLength p 0 .outside r = p := by
  obtain ⟨b, y, rfl, rfl | rfl | rfl⟩ := h <;> simp [itemLength, ascii]

mutual

/-- The scan passes a value. -/
theorem itemLength_tree (t : Tree ν σ) (p d : Nat) (x : List UInt8) :
    itemLength p d .outside (t.bytes ++ x) = itemLength (p + t.bytes.length) d .outside x := by
  cases t with
  | null => exact itemLength_inert (show ∀ b ∈ Utf8.ofString "null", IsInert b by decide +kernel)
  | bool b =>
    cases b
    · exact itemLength_inert (show ∀ b ∈ Utf8.ofString "false", IsInert b by decide +kernel)
    · exact itemLength_inert (show ∀ b ∈ Utf8.ofString "true", IsInert b by decide +kernel)
  | number n =>
    have hrun := Numeral.isRun n
    exact itemLength_inert fun b hb => isInert_of_number b (hrun.number b hb)
  | string s => exact itemLength_string s
  | array pad items =>
    have hlen : (Tree.array pad items : Tree ν σ).bytes.length
        = pad.bytes.length + (items.bytes true).length + 2 := by
      simp [Tree.bytes, Nat.add_assoc]
    rw [hlen]
    simp only [Tree.bytes, List.cons_append, List.append_assoc, List.nil_append]
    rw [itemLength_open (.inr rfl), itemLength_blanks, itemLength_items,
      itemLength_close (.inr rfl)]
    congr 1
    omega
  | object pad members =>
    have hlen : (Tree.object pad members : Tree ν σ).bytes.length
        = pad.bytes.length + (members.bytes true).length + 2 := by
      simp [Tree.bytes, Nat.add_assoc]
    rw [hlen]
    simp only [Tree.bytes, List.cons_append, List.append_assoc, List.nil_append]
    rw [itemLength_open (.inl rfl), itemLength_blanks, itemLength_members,
      itemLength_close (.inl rfl)]
    congr 1
    omega

/-- Within a container, the scan passes the items. -/
theorem itemLength_items (items : Items ν σ) (first : Bool) (p d : Nat) (x : List UInt8) :
    itemLength p (d + 1) .outside (items.bytes first ++ x)
      = itemLength (p + (items.bytes first).length) (d + 1) .outside x := by
  cases items with
  | nil => rfl
  | cons before v after rest =>
    rw [Items.bytes_cons_append, itemLength_leadingComma, itemLength_blanks, itemLength_tree,
      itemLength_blanks, itemLength_items]
    congr 1
    simp only [Items.bytes, List.length_append]
    omega

/-- Within a container, the scan passes the members. -/
theorem itemLength_members (members : Members ν σ) (first : Bool) (p d : Nat) (x : List UInt8) :
    itemLength p (d + 1) .outside (members.bytes first ++ x)
      = itemLength (p + (members.bytes first).length) (d + 1) .outside x := by
  cases members with
  | nil => rfl
  | cons before key afterKey beforeValue v after rest =>
    have hcolon : ∀ (p : Nat) (y : List UInt8), itemLength p (d + 1) .outside (ascii ':' :: y)
        = itemLength (p + 1) (d + 1) .outside y := by
      intro p y
      show itemLength p (d + 1) .outside ([ascii ':'] ++ y) = _
      exact itemLength_inert (List.forall_mem_singleton.2 (by decide))
    rw [Members.bytes_cons_append, itemLength_leadingComma, itemLength_blanks, itemLength_string,
      itemLength_blanks, hcolon, itemLength_blanks, itemLength_tree, itemLength_blanks,
      itemLength_members]
    congr 1
    simp only [Members.bytes, List.length_append, List.length_cons]
    omega

end

/-! ## Brackets that are owed -/

theorem openBrackets_unmarked {owed xs : List UInt8} (h : ∀ b ∈ xs, IsUnmarked b) :
    openBrackets owed .outside (xs ++ x) = openBrackets owed .outside x := by
  induction xs with
  | nil => rfl
  | cons b xs ih =>
    have hb := h b (by simp)
    rw [List.cons_append, openBrackets]
    simp only [hb.quote, hb.brace, hb.bracket, hb.closeBrace, hb.closeBracket, or_self,
      false_and, if_false]
    exact ih fun c hc => h c (by simp [hc])

theorem openBrackets_closer {owed : List UInt8} {b : UInt8} (hb : Reader.IsCloser b) :
    openBrackets owed .outside (b :: x)
      = openBrackets (if owed.head? = some b then owed.tail else owed) .outside x := by
  have hq : b ≠ ascii '"' := by rcases hb with rfl | rfl <;> decide
  have ho : b ≠ ascii '{' := by rcases hb with rfl | rfl <;> decide
  have ho' : b ≠ ascii '[' := by rcases hb with rfl | rfl <;> decide
  rw [openBrackets, if_neg hq, if_neg ho, if_neg ho']
  by_cases hhead : owed.head? = some b
  · rw [if_pos ⟨hb, hhead⟩, if_pos hhead]
  · rw [if_neg fun h => hhead h.2, if_neg hhead]

namespace Reader

/-- No byte in front of a token is a quote or a bracket. -/
theorem Gap.unmarked {p : Option UInt8} {g : List UInt8} (h : Gap p g) : ∀ b ∈ g, IsUnmarked b := by
  have hblank : ∀ (w : Blanks), ∀ b ∈ w.bytes, IsUnmarked b := fun w b hb =>
    (isInert_of_blank b (w.blank b hb)).toIsUnmarked
  cases h with
  | free w => exact hblank w
  | separated v w hc =>
    intro b hb
    rw [List.mem_append, List.mem_cons] at hb
    rcases hb with hb | rfl | hb
    · exact hblank v b hb
    · rcases hc with rfl | rfl <;> decide
    · exact hblank w b hb

/-- The opening bracket of the value ahead is the only one that is owed after it. -/
theorem openSince_open {s : Reader} {b : UInt8} {y : List UInt8}
    (hb : b = ascii '{' ∨ b = ascii '[')
    (h : s.Ahead (b :: y)) (d : Nat) : (s.goTo y d).openSince s = 1 := by
  obtain ⟨-, g, hg, hs⟩ := h
  have htake : s.rest.take ((s.goTo y d).offset - s.offset) = g ++ [b] := by
    have hoff : (s.goTo y d).offset - s.offset = (g ++ [b]).length := by
      simp only [goTo, hs, List.length_append, List.length_cons, List.length_nil]
      omega
    rw [hoff, hs, List.append_cons g b y, List.take_left]
  rw [openSince, htake, openBrackets_unmarked hg.unmarked]
  rcases hb with rfl | rfl <;> rfl

/-- Recovery passes the rest of a container and the blanks after it, and stops at what follows. -/
theorem recoverFrom_open {s : Reader} (t : Tree ν σ) {b : UInt8}
    (hb : b = ascii '{' ∨ b = ascii '[') (ht : t.bytes = b :: t.tail) (after : Blanks)
    {r : List UInt8} (hr : StopsItem r) (h : s.Ahead (t.bytes ++ (after.bytes ++ r))) (d : Nat) :
    (s.goTo (t.tail ++ (after.bytes ++ r)) d).recoverFrom s = s.goTo r s.depth := by
  rw [ht, List.cons_append] at h
  have hlen : itemLength 0 1 .outside (t.tail ++ (after.bytes ++ r))
      = t.tail.length + after.bytes.length := by
    have hopen := itemLength_tree t 0 0 (after.bytes ++ r)
    rw [itemLength_blanks, itemLength_stops hr, ht, List.cons_append, itemLength_open hb,
      itemLength_add, List.length_cons, Nat.zero_add] at hopen
    omega
  have hle := h.length_le
  rw [List.length_cons] at hle
  rw [recoverFrom, openSince_open hb h, rest_goTo, hlen,
    advance_goTo (by simp only [List.length_append]; omega) (by omega), ← List.append_assoc,
    ← List.length_append, List.drop_left]
  rfl

end Reader

end ProtoJson
