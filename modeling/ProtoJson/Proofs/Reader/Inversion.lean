import ProtoJson.Proofs.Reader.Token

/-!
# What a read has taken

The converse of `Reader.Token`, over any bytes: where a read succeeds, the text in front of the
reader begins with what is announced and the spelling of a token, and the reader has moved over
both.
-/

namespace ProtoJson

open Grammar

namespace Grammar

/-- The texts that a reader can take: their separators and brackets are in order, and their numbers
and strings are any tokens. -/
abbrev TokenTree := Tree NumberToken StringToken

/-- The bytes that a token is spelled with: those of a bracket, or those of a value that is no
container. -/
inductive Spells : TokenKind → List UInt8 → Prop where
  | bracket (b : UInt8) (hb : TokenKind.isBracket b = true) : Spells (.symbol b) [b]
  | value (t : TokenTree) (ht : t.tail = []) : Spells t.head t.bytes

/-- A bracket is spelled as itself. -/
theorem Spells.bracket_eq {b : UInt8} {x : List UInt8} (h : Spells (.symbol b) x) : x = [b] := by
  generalize hk : TokenKind.symbol b = k at h
  cases h with
  | bracket b' hb' =>
    cases hk
    rfl
  | value t ht =>
    cases t with
    | array pad items => simp [Tree.tail] at ht
    | object pad members => simp [Tree.tail] at ht
    | _ => cases hk

end Grammar

/-! ## Scanning -/

namespace TokenKind

theorem of_stringBody? {r raw : List UInt8} {escaped : Bool}
    (h : stringBody? r = some (raw, escaped)) :
    isStringBody raw = true ∧ escaped = raw.contains (ascii '\\') ∧
      ∃ rest, r = raw ++ ascii '"' :: rest := by
  fun_induction stringBody? r generalizing raw escaped with
  | case1 => cases h
  | case2 r =>
    cases h
    exact ⟨rfl, rfl, r, rfl⟩
  | case3 => cases h
  | case4 c r hb ih =>
    obtain ⟨⟨raw', escaped'⟩, hbody, heq⟩ := Option.map_eq_some_iff.1 h
    cases heq
    obtain ⟨hraw, -, rest, hrest⟩ := ih hbody
    refine ⟨?_, by simp, rest, by rw [hrest]; rfl⟩
    rw [isStringBody, if_neg hb, if_pos rfl]
    exact hraw
  | case5 b r hb hb' ih =>
    obtain ⟨⟨raw', escaped'⟩, hbody, heq⟩ := Option.map_eq_some_iff.1 h
    cases heq
    obtain ⟨hraw, hescaped, rest, hrest⟩ := ih hbody
    refine ⟨?_, by simp [hescaped, Ne.symm hb'], rest, by rw [hrest]; rfl⟩
    rw [isStringBody.eq_def]
    simp only [hb, hb', if_false]
    exact hraw

theorem of_keyword {word : String} {kind k : TokenKind} {text : List UInt8} {n : Nat}
    (h : keyword word kind text = .ok (k, n)) :
    k = kind ∧ n = (Utf8.ofString word).length ∧ ∃ rest, text = Utf8.ofString word ++ rest := by
  unfold keyword at h
  dsimp only at h
  split at h
  · next hp =>
    cases h
    obtain ⟨rest, hrest⟩ := List.isPrefixOf_iff_prefix.1 hp
    exact ⟨rfl, rfl, rest, hrest.symm⟩
  · cases h

/-- A scan takes the spelling of its token. -/
theorem spells_of_scan {text : List UInt8} {k : TokenKind} {n : Nat} (h : scan text = .ok (k, n)) :
    ∃ x rest, text = x ++ rest ∧ n = x.length ∧ Spells k x := by
  -- The first byte decides what kind of token it is.
  unfold scan at h
  split at h
  · cases h
  · next b r =>
    split at h
    · next hb =>
      cases h
      exact ⟨[b], r, rfl, rfl, .bracket b hb⟩
    split at h
    · next hb =>
      split at h
      · next raw escaped hbody =>
        cases h
        obtain ⟨hraw, rfl, rest, rfl⟩ := of_stringBody? hbody
        refine ⟨Quotation.bytes (⟨raw, hraw⟩ : StringToken), rest, ?_, ?_,
          .value (.string ⟨raw, hraw⟩) rfl⟩
        · rw [hb]
          simp [Quotation.bytes, Quotation.raw]
        · simp [Quotation.bytes, Quotation.raw]
      · cases h
    split at h
    · next hb =>
      cases h
      have hn : isNumberByte b = true := by
        rcases hb with rfl | hb
        · decide
        · simp [isNumberByte, hb]
      have hrun : IsNumberRun ((b :: r).takeWhile isNumberByte) :=
        ⟨⟨b, r.takeWhile isNumberByte, by rw [List.takeWhile_cons_of_pos hn], hb⟩,
          fun _ hc => List.mem_takeWhile_imp hc⟩
      exact ⟨(b :: r).takeWhile isNumberByte, (b :: r).dropWhile isNumberByte,
        List.takeWhile_append_dropWhile.symm, rfl, .value (.number ⟨_, hrun⟩) rfl⟩
    split at h
    · obtain ⟨rfl, rfl, rest, hrest⟩ := of_keyword h
      exact ⟨_, rest, hrest, rfl, .value (.bool true) rfl⟩
    split at h
    · obtain ⟨rfl, rfl, rest, hrest⟩ := of_keyword h
      exact ⟨_, rest, hrest, rfl, .value (.bool false) rfl⟩
    split at h
    · obtain ⟨rfl, rfl, rest, hrest⟩ := of_keyword h
      exact ⟨_, rest, hrest, rfl, .value .null rfl⟩
    · cases h

end TokenKind

namespace Reader

variable {s s' : Reader}

/-- A reader passes the blanks in front of it. -/
theorem skipBlanks_inv (s : Reader) : ∃ v : Blanks,
    s.rest = v.bytes ++ s.skipBlanks.rest ∧ s.skipBlanks = s.advance v.bytes.length := by
  obtain ⟨r, hr⟩ := List.takeWhile_prefix isBlank (l := s.rest)
  have hdrop : (s.rest.takeWhile isBlank ++ r).drop (s.rest.takeWhile isBlank).length = r :=
    List.drop_left
  rw [hr] at hdrop
  refine ⟨.front s.rest, ?_, rfl⟩
  show s.rest = s.rest.takeWhile isBlank ++ s.rest.drop (s.rest.takeWhile isBlank).length
  rw [hdrop, hr]

theorem scanToken_inv {t : Token} (h : s.scanToken = (.ok t, s')) :
    ∃ x rest, s.rest = x ++ rest ∧ s' = s.advance x.length ∧ Spells t.kind x := by
  unfold scanToken at h
  split at h
  · next k n hk =>
    cases h
    obtain ⟨x, rest, hx, rfl, hspells⟩ := TokenKind.spells_of_scan hk
    exact ⟨x, rest, hx, rfl, hspells⟩
  · cases h

/-- Where nothing is announced, a scan takes blanks and a token. -/
theorem scanUnseparated_inv {t : Token} (h : s.scanUnseparated = (.ok t, s')) :
    ∃ (w : Blanks) (x rest : List UInt8), s.rest = w.bytes ++ (x ++ rest) ∧
      s' = s.advance (w.bytes ++ x).length ∧ Spells t.kind x := by
  obtain ⟨w, hrest, hskip⟩ := skipBlanks_inv s
  unfold scanUnseparated at h
  dsimp only at h
  split at h
  · cases h
  · split at h
    · cases h
    · obtain ⟨x, rest, hx, rfl, hspells⟩ := scanToken_inv h
      refine ⟨w, x, rest, ?_, ?_, hspells⟩
      · rw [← hx]
        exact hrest
      · rw [hskip]
        simp [advance, Nat.add_assoc]

/-- A token is taken after what is announced, or it is a closing bracket. -/
theorem nextToken_inv {t : Token} (ht : s.token = none) (h : s.nextToken = (.ok t, s')) :
    (∃ x rest, s.Ahead (x ++ rest) ∧ s' = s.goTo rest s.depth ∧ Spells t.kind x) ∨
      ∃ b, t.kind = .symbol b ∧ IsCloser b := by
  rw [nextToken, ht] at h
  obtain ⟨v, hfront, hskip⟩ := skipBlanks_inv s
  cases scanned_of_eq h with
  | unannounced hp h =>
    obtain ⟨w, x, rest, hrest, hs', hspells⟩ := scanUnseparated_inv h
    refine .inl ⟨x, rest, ⟨ht, w.bytes, hp ▸ .free w, hrest⟩, ?_, hspells⟩
    have hgo := advance_eq_goTo (s := s) (x := w.bytes ++ x) (r := rest) (by simp [hrest])
    rw [← hgo, hs']
    simp [advance, ht, hp]
  | @separated c r hc hp hr h =>
    obtain ⟨w, x, rest, hrest, hs', hspells⟩ := scanUnseparated_inv h
    have hr' : r = w.bytes ++ (x ++ rest) := by
      rw [← hrest]
      simp [advance, hr]
    rw [hr, hr'] at hfront
    -- The separator and the blanks around it are what stands in front of the token.
    have hgap : Gap s.pending (v.bytes ++ c :: w.bytes) := by
      rw [hp]
      exact .separated v w hc
    refine .inl ⟨x, rest, ⟨ht, _, hgap, by simp [hfront]⟩, ?_, hspells⟩
    have hgo := advance_eq_goTo (s := s) (x := v.bytes ++ c :: (w.bytes ++ x)) (r := rest)
      (by simp [hfront])
    rw [← hgo, hs', hskip]
    simp [advance, ht, Nat.add_assoc, Nat.add_comm 1]
  | @closed b _ hb _ hr h =>
    cases scanToken_of_closer hb h hr
    exact .inr ⟨b, rfl, hb⟩
  | missing _ _ _ h => cases h

/-- A read of one token that is no bracket takes a value that is no container. -/
theorem andThen_expect_inv {α β : Type} {c : TokenClass} {accept : TokenKind → Option α}
    {f : Token × α → Except SyntaxError β} {b : β} (hsym : ∀ b, accept (.symbol b) = none)
    (ht : s.token = none) (h : andThen (s.expect c accept) f = (.ok b, s')) :
    ∃ t : TokenTree, s.Ahead (t.bytes ++ s'.rest) ∧ s' = s.goTo s'.rest s.depth ∧
      ∃ tok a, accept t.head = some a ∧ f (tok, a) = .ok b := by
  rw [expect] at h
  cases hnext : s.nextToken with
  | mk res s₁ =>
    rw [hnext] at h
    cases res with
    | error e => cases h
    | ok tok =>
      dsimp only at h
      cases ha : accept tok.kind with
      | none =>
        rw [ha] at h
        cases h
      | some a =>
        rw [ha] at h
        obtain ⟨hf, rfl⟩ := Prod.mk.inj h
        rcases nextToken_inv ht hnext with ⟨x, rest, hahead, rfl, hspells⟩ | ⟨b', hk, -⟩
        · -- No bracket is accepted, so the token spells a value.
          generalize tok.kind = k at ha hspells
          cases hspells with
          | value t htail => exact ⟨t, hahead, rfl, tok, a, ha, hf⟩
          | bracket b' hb' =>
            rw [hsym] at ha
            cases ha
        · rw [hk, hsym] at ha
          cases ha

/-- A string that is read stands in front of the reader. -/
theorem string_inv {text : String} (ht : s.token = none) (h : s.string = (.ok text, s')) :
    ∃ q : StringToken, s.Ahead (Quotation.bytes q ++ s'.rest) ∧ s' = s.goTo s'.rest s.depth ∧
      Quotation.text? s.options.decodeEscapes q = some text := by
  obtain ⟨t, hahead, hgo, tok, a, ha, hf⟩ := andThen_expect_inv (fun _ => rfl) ht h
  cases t with
  | string q =>
    cases ha
    refine ⟨q, hahead, hgo, ?_⟩
    rw [Quotation.text?_eq, ← toOption_text? tok]
    exact congrArg Except.toOption hf
  | _ => cases ha

theorem mapKey_inv {kind : KeyKind} {key : MapKey} (ht : s.token = none)
    (h : s.mapKey kind = (.ok key, s')) :
    ∃ q : StringToken, s.Ahead (Quotation.bytes q ++ s'.rest) ∧ s' = s.goTo s'.rest s.depth := by
  obtain ⟨t, hahead, hgo, tok, a, ha, -⟩ := andThen_expect_inv (fun _ => rfl) ht h
  cases t with
  | string q => exact ⟨q, hahead, hgo⟩
  | _ => cases ha

theorem enumeration_inv {e : EnumType} {v : EnumValue} (ht : s.token = none)
    (h : s.enumeration e = (.ok v, s')) :
    ∃ t : TokenTree, s.Ahead (t.bytes ++ s'.rest) ∧ s' = s.goTo s'.rest s.depth := by
  have href : ∃ ref, s.enumReference = (.ok ref, s') := by
    unfold enumeration at h
    split at h
    · cases h
    · next heq =>
      split at h
      · cases h
        exact ⟨_, heq⟩
      · cases h
    · next heq =>
      split at h
      · cases h
        exact ⟨_, heq⟩
      · cases h
  obtain ⟨ref, href⟩ := href
  obtain ⟨t, hahead, hgo, -⟩ := andThen_expect_inv (fun _ => rfl) ht href
  exact ⟨t, hahead, hgo⟩

/-! ## Brackets -/

/-- An opening bracket that is taken stands in front of the reader. -/
theorem symbol_inv {b : UInt8} (hb : b = ascii '{' ∨ b = ascii '[') (ht : s.token = none)
    (h : s.symbol b = (.ok (), s')) :
    s.Ahead (b :: s'.rest) ∧ s' = s.goTo s'.rest (s.depth + 1) := by
  rw [symbol, expect] at h
  cases hnext : s.nextToken with
  | mk res s₁ =>
    rw [hnext] at h
    cases res with
    | error e => cases h
    | ok tok =>
      dsimp only at h
      by_cases hk : tok.kind = .symbol b
      · rw [if_pos hk] at h
        dsimp only at h
        rw [if_pos hb, enter] at h
        split at h
        · obtain ⟨-, rfl⟩ := Prod.mk.inj h
          rcases nextToken_inv ht hnext with ⟨x, rest, hahead, rfl, hspells⟩ | ⟨b', hk', hclose⟩
          · rw [hk] at hspells
            obtain rfl := hspells.bracket_eq
            exact ⟨hahead, rfl⟩
          · rw [hk', TokenKind.symbol.injEq] at hk
            have hopen : ¬ IsCloser b := by rcases hb with rfl | rfl <;> decide
            exact absurd (hk ▸ hclose) hopen
        · cases h
      · rw [if_neg hk] at h
        cases h

/-- A closing bracket that is next stands after blanks. -/
theorem atSymbol_inv {c : UInt8} (ht : s.token = none) (h : s.atSymbol c = true) :
    ∃ (pad : Blanks) (r : List UInt8), s.rest = pad.bytes ++ c :: r := by
  rw [atSymbol, ht] at h
  obtain ⟨-, v, r, hrest, hv⟩ := List.find?_eq_some_iff_append.1 (eq_of_beq h)
  exact ⟨⟨v, fun b hb => by simpa using hv b hb⟩, r, hrest⟩

/-! ## Moves -/

/-- The second reader is the first one moved on, with `d` containers open. -/
structure Moved (s s' : Reader) (d : Nat) : Prop where
  length_le : s'.rest.length ≤ s.rest.length
  eq_goTo : s' = s.goTo s'.rest d

theorem Ahead.moved (text : List UInt8) {d : Nat} (h : s.Ahead (text ++ s'.rest))
    (hgo : s' = s.goTo s'.rest d) : Moved s s' d := by
  have hle := h.length_le
  rw [List.length_append] at hle
  exact ⟨by omega, hgo⟩

theorem Moved.trans {s₁ s₂ : Reader} {d₁ d₂ : Nat} (h : Moved s s₁ d₁) (h' : Moved s₁ s₂ d₂) :
    Moved s s₂ d₂ := by
  refine ⟨le_trans h'.length_le h.length_le, ?_⟩
  rw [← goTo_goTo h.length_le h'.length_le, ← h.eq_goTo]
  exact h'.eq_goTo

theorem Moved.token {d : Nat} (h : Moved s s' d) : s'.token = none := by rw [h.eq_goTo]; rfl

theorem Moved.options {d : Nat} (h : Moved s s' d) : s'.options = s.options := by
  rw [h.eq_goTo]
  rfl

theorem Moved.depth {d : Nat} (h : Moved s s' d) : s'.depth = d := by rw [h.eq_goTo]; rfl

theorem Moved.pending {d : Nat} (h : Moved s s' d) : s'.pending = none := by rw [h.eq_goTo]; rfl

/-- An announcement does not move the reader. -/
theorem moved_colon {d : Nat} : Moved s.colon s' d ↔ Moved s s' d :=
  ⟨fun h => ⟨h.length_le, h.eq_goTo⟩, fun h => ⟨h.length_le, h.eq_goTo⟩⟩

theorem moved_comma {d : Nat} : Moved s.comma s' d ↔ Moved s s' d :=
  ⟨fun h => ⟨h.length_le, h.eq_goTo⟩, fun h => ⟨h.length_le, h.eq_goTo⟩⟩

/-- A value that follows a colon stands after it. -/
theorem Ahead.of_colon {text : List UInt8} (h : s.colon.Ahead text) :
    ∃ v w : Blanks, s.rest = v.bytes ++ ascii ':' :: (w.bytes ++ text) := by
  obtain ⟨g, hg, hrest⟩ := h.gap
  have hp : s.colon.pending = some (ascii ':') := rfl
  rw [hp] at hg
  cases hg with
  | separated v w hc =>
    have hs : s.rest = v.bytes ++ ascii ':' :: w.bytes ++ text := hrest
    exact ⟨v, w, by simpa using hs⟩

/-- An item that follows the comma of a loop stands after it. -/
theorem Ahead.atLoop {first : Bool} {text : List UInt8} (h : s.Ahead text)
    (hp : s.pending = if first then none else some (ascii ',')) :
    ∃ before : Blanks, s.AtLoop first (leadingComma first ++ (before.bytes ++ text)) := by
  obtain ⟨g, hg, hrest⟩ := h.gap
  rw [hp] at hg
  cases first with
  | true =>
    cases hg with
    | free w => exact ⟨.empty, h.token, hp, w, by simpa [leadingComma] using hrest⟩
  | false =>
    cases hg with
    | separated v w hc => exact ⟨w, h.token, hp, v, by simpa [leadingComma] using hrest⟩

end Reader

end ProtoJson
