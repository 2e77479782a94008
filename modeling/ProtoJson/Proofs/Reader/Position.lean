import ProtoJson.Proofs.Grammar.Tree
import ProtoJson.Reader.Value

/-!
# Where a reader stands

A read moves the cursor from one text that is left to a shorter one and leaves nothing kept or
announced behind: `goTo`. What a reader has ahead of it is described by `Ahead`: an announced
separator among blanks, and then the text of the next token.
-/

namespace ProtoJson.Reader

open Grammar

/-! ## Moving on -/

/-- The reader with `rest` left, `depth` containers open, and nothing kept or announced. -/
def goTo (s : Reader) (rest : List UInt8) (depth : Nat) : Reader :=
  { options := s.options, rest, offset := s.offset + (s.rest.length - rest.length), depth }

variable {s : Reader} {r r' : List UInt8} {d d' : Nat}

@[simp] theorem options_goTo : (s.goTo r d).options = s.options := rfl

@[simp] theorem rest_goTo : (s.goTo r d).rest = r := rfl

@[simp] theorem depth_goTo : (s.goTo r d).depth = d := rfl

@[simp] theorem token_goTo : (s.goTo r d).token = none := rfl

@[simp] theorem pending_goTo : (s.goTo r d).pending = none := rfl

@[simp] theorem goTo_comma : s.comma.goTo r d = s.goTo r d := rfl

@[simp] theorem goTo_colon : s.colon.goTo r d = s.goTo r d := rfl

@[simp] theorem options_comma : s.comma.options = s.options := rfl

@[simp] theorem options_colon : s.colon.options = s.options := rfl

@[simp] theorem depth_comma : s.comma.depth = s.depth := rfl

@[simp] theorem depth_colon : s.colon.depth = s.depth := rfl

/-- Two moves in a row are one. -/
theorem goTo_goTo (h : r.length ≤ s.rest.length) (h' : r'.length ≤ r.length) :
    (s.goTo r d).goTo r' d' = s.goTo r' d' := by
  simp only [goTo, Reader.mk.injEq, true_and, and_true]
  omega

/-- Moving over the text in front of `r`. -/
theorem advance_eq_goTo {x : List UInt8} (hs : s.rest = x ++ r) :
    { s.advance x.length with token := none, pending := none } = s.goTo r s.depth := by
  simp only [advance, goTo, hs, List.drop_left, List.length_append, Reader.mk.injEq, true_and,
    and_true]
  omega

theorem advance_goTo {n : Nat} (hn : n ≤ r.length) (h : r.length ≤ s.rest.length) :
    (s.goTo r d).advance n = s.goTo (r.drop n) d := by
  simp only [advance, goTo, List.length_drop, Reader.mk.injEq, true_and, and_true]
  omega

/-! ## What is ahead -/

/-- What stands between the cursor and the next token: blanks, and among them the separator that is
announced. -/
inductive Gap : Option UInt8 → List UInt8 → Prop where
  | free (w : Blanks) : Gap none w.bytes
  | separated (v w : Blanks) {c : UInt8} (hc : c = ascii ',' ∨ c = ascii ':') :
    Gap (some c) (v.bytes ++ c :: w.bytes)

/-- A reader that keeps no token and has `text` ahead of it, after what is announced. -/
structure Ahead (s : Reader) (text : List UInt8) : Prop where
  token : s.token = none
  gap : ∃ g, Gap s.pending g ∧ s.rest = g ++ text

theorem Ahead.length_le {text : List UInt8} (h : s.Ahead text) :
    text.length ≤ s.rest.length := by
  obtain ⟨g, -, hs⟩ := h.gap
  simp [hs]

theorem skipBlanks_eq (w : Blanks) {b : UInt8} {x : List UInt8} (hs : s.rest = w.bytes ++ b :: x)
    (hb : isBlank b = false) : s.skipBlanks = s.advance w.bytes.length := by
  rw [skipBlanks, hs, w.takeWhile_append x hb]

/-- Where nothing is announced, a scan passes blanks. -/
theorem scanUnseparated_eq (w : Blanks) {b : UInt8} {x : List UInt8}
    (hs : s.rest = w.bytes ++ b :: x) (hb : StartsToken b) :
    s.scanUnseparated = (s.advance w.bytes.length).scanToken := by
  have hr : (s.advance w.bytes.length).rest = b :: x := by simp [advance, hs]
  unfold scanUnseparated
  rw [skipBlanks_eq w hs hb.blank]
  dsimp only
  rw [hr]
  simp [hb.comma, hb.colon, hb.brace, hb.bracket]

/-- Where a separator is announced, a scan passes it and the blanks around it. -/
theorem scan_eq (v w : Blanks) {b c : UInt8} {x : List UInt8} (hc : c = ascii ',' ∨ c = ascii ':')
    (hp : s.pending = some c) (hs : s.rest = v.bytes ++ c :: (w.bytes ++ b :: x))
    (hb : StartsToken b) :
    s.scan
      = { s.advance (v.bytes.length + 1 + w.bytes.length) with pending := none }.scanToken := by
  have hblank : isBlank c = false := by rcases hc with rfl | rfl <;> decide
  have hr : (s.advance v.bytes.length).rest = c :: (w.bytes ++ b :: x) := by simp [advance, hs]
  have hr' : { (s.advance v.bytes.length).advance 1 with pending := none }.rest
      = w.bytes ++ b :: x := by
    simp [advance, hs]
  unfold scan
  rw [hp]
  dsimp only
  rw [skipBlanks_eq v hs hblank, hr]
  dsimp only
  rw [if_pos hc, if_pos rfl, scanUnseparated_eq w hr' hb]
  simp [advance, Nat.add_assoc]

/-- The next token is scanned where what is ahead begins. -/
theorem nextToken_eq_scanToken {b : UInt8} {x : List UInt8} (h : s.Ahead (b :: x))
    (hb : StartsToken b) : s.nextToken = (s.goTo (b :: x) s.depth).scanToken := by
  obtain ⟨ht, g, hg, hs⟩ := h
  rw [nextToken, ht, ← advance_eq_goTo hs]
  dsimp only
  generalize hp : s.pending = p at hg
  cases hg with
  | free w =>
    rw [scan, hp, scanUnseparated_eq w hs hb]
    simp [advance, hp, ht]
  | separated v w hc =>
    rw [scan_eq v w hc hp (by simpa using hs) hb]
    simp [advance, ht, Nat.add_assoc, Nat.add_comm 1]

/-- A token that is scanned after a move is passed. -/
theorem scanToken_goTo {k : TokenKind} {n : Nat} (h : r.length ≤ s.rest.length)
    (hk : TokenKind.scan r = .ok (k, n)) (hn : n ≤ r.length) :
    ∃ t : Token, t.kind = k ∧ (s.goTo r d).scanToken = (.ok t, s.goTo (r.drop n) d) := by
  refine ⟨⟨k, s.offset + (s.rest.length - r.length), r⟩, rfl, ?_⟩
  simp only [scanToken, rest_goTo, hk]
  rw [advance_goTo hn h]
  rfl

/-! ## Closing brackets -/

theorem peek?_eq (w : Blanks) {b : UInt8} {x : List UInt8} (hs : s.rest = w.bytes ++ b :: x)
    (hb : isBlank b = false) : s.peek? = some b := by
  rw [peek?, hs, w.find?_append x hb]

theorem atSymbol_eq (w : Blanks) {b : UInt8} {x : List UInt8} (ht : s.token = none)
    (hs : s.rest = w.bytes ++ b :: x) (hb : isBlank b = false) (c : UInt8) :
    s.atSymbol c = (b == c) := by
  rw [atSymbol, ht]
  dsimp only
  rw [peek?_eq w hs hb]
  simp

/-- The closing brackets. -/
abbrev IsCloser (b : UInt8) : Prop := b = ascii '}' ∨ b = ascii ']'

/-- A closing bracket may stand where a comma is announced. -/
theorem nextToken_closer (w : Blanks) {b : UInt8} (hb : IsCloser b) (ht : s.token = none)
    (hp : s.pending = some (ascii ',')) (hs : s.rest = w.bytes ++ b :: r) :
    ∃ t : Token, t.kind = .symbol b ∧ s.nextToken = (.ok t, s.goTo r s.depth) := by
  have hblank : isBlank b = false := by rcases hb with rfl | rfl <;> decide
  have hsep : ¬ (b = ascii ',' ∨ b = ascii ':') := by rcases hb with rfl | rfl <;> decide
  have hr : (s.advance w.bytes.length).rest = b :: r := by simp [advance, hs]
  have hscan : s.nextToken = (s.goTo (b :: r) s.depth).scanToken := by
    rw [nextToken, ht, ← advance_eq_goTo hs]
    dsimp only
    rw [scan, hp]
    dsimp only
    rw [skipBlanks_eq w hs hblank, hr]
    dsimp only
    rw [if_neg hsep, if_pos ⟨hb, rfl⟩]
    simp [advance, ht]
  rw [hscan]
  exact scanToken_goTo (by simp [hs]) (TokenKind.scan_closer hb) (by simp)

/-- A closing bracket is taken whether a comma is announced in front of it or not. -/
theorem close_eq {α : Type} (content : α) (w : Blanks) {b : UInt8} (hb : IsCloser b)
    (ht : s.token = none) (hs : s.rest = w.bytes ++ b :: r) :
    s.close b content = (.ok content, s.goTo r (s.depth - 1)) := by
  have hopen : ¬ (b = ascii '{' ∨ b = ascii '[') := by rcases hb with rfl | rfl <;> decide
  obtain ⟨t, htk, hnext⟩ := nextToken_closer (s := s.comma) w hb ht rfl hs
  have hexp : s.comma.expect (.symbol b) (fun k => if k = .symbol b then some () else none)
      = (.ok (t, ()), s.goTo r s.depth) := by
    rw [expect, hnext]
    simp only [htk, if_true]
    rfl
  rw [close, symbol, hexp]
  dsimp only
  rw [if_neg hopen, if_pos hb]
  rfl

/-! ## Loops over items -/

/-- A reader in front of what is left of the items of a container. In front of the first item
nothing is announced, and in front of the others a comma. -/
structure AtLoop (s : Reader) (first : Bool) (text : List UInt8) : Prop where
  token : s.token = none
  pending : s.pending = if first then none else some (ascii ',')
  rest : ∃ pad : Blanks, s.rest = pad.bytes ++ text

/-- A loop starts after the opening bracket. -/
theorem atLoop_open (pad : Blanks) (text : List UInt8) (d : Nat) :
    (s.goTo (pad.bytes ++ text) d).AtLoop true text :=
  ⟨rfl, rfl, pad, rfl⟩

/-- A loop goes on after an item, with a comma announced. -/
theorem atLoop_comma (after : Blanks) (text : List UInt8) (d : Nat) :
    (s.goTo (after.bytes ++ text) d).comma.AtLoop false text :=
  ⟨rfl, rfl, after, rfl⟩

variable {first : Bool} {text : List UInt8}

theorem AtLoop.length_le (h : s.AtLoop first text) : text.length ≤ s.rest.length := by
  obtain ⟨pad, hs⟩ := h.rest
  simp [hs]

/-- The next item is ahead. -/
theorem AtLoop.ahead {before : Blanks}
    (h : s.AtLoop first (leadingComma first ++ (before.bytes ++ text))) : s.Ahead text := by
  obtain ⟨ht, hp, pad, hs⟩ := h
  refine ⟨ht, ?_⟩
  rw [hp]
  cases first with
  | true =>
    refine ⟨_, .free (pad ++ before), ?_⟩
    rw [hs]
    simp [leadingComma]
  | false =>
    refine ⟨_, .separated pad before (.inl rfl), ?_⟩
    rw [hs]
    simp [leadingComma]

/-- There is no closing bracket where an item is ahead. -/
theorem AtLoop.not_atSymbol {before : Blanks} {b c : UInt8} {x : List UInt8}
    (h : s.AtLoop first (leadingComma first ++ (before.bytes ++ b :: x))) (hb : StartsToken b)
    (hc : IsCloser c) : s.atSymbol c = false ∧ s.peek?.isSome = true := by
  obtain ⟨ht, -, pad, hs⟩ := h
  cases first with
  | true =>
    have hs' : s.rest = (pad ++ before).bytes ++ b :: x := by simp [hs, leadingComma]
    have hne : b ≠ c := by
      rcases hc with rfl | rfl
      · exact hb.brace
      · exact hb.bracket
    rw [atSymbol_eq _ ht hs' hb.blank, peek?_eq _ hs' hb.blank]
    exact ⟨beq_eq_false_iff_ne.2 hne, rfl⟩
  | false =>
    have hs' : s.rest = pad.bytes ++ ascii ',' :: (before.bytes ++ b :: x) := by
      simp [hs, leadingComma]
    have hblank : isBlank (ascii ',') = false := by decide
    rw [atSymbol_eq _ ht hs' hblank, peek?_eq _ hs' hblank]
    refine ⟨?_, rfl⟩
    rcases hc with rfl | rfl <;> decide

/-- The closing bracket ends the loop. -/
theorem AtLoop.close {α : Type} {c : UInt8} (h : s.AtLoop first (c :: r)) (hc : IsCloser c)
    (content : α) :
    s.atSymbol c = true ∧ s.close c content = (.ok content, s.goTo r (s.depth - 1)) := by
  obtain ⟨ht, -, pad, hs⟩ := h
  have hblank : isBlank c = false := by rcases hc with rfl | rfl <;> decide
  rw [atSymbol_eq pad ht hs hblank]
  exact ⟨beq_self_eq_true c, close_eq content pad hc ht hs⟩

/-- The value of a member is ahead of its colon. -/
theorem ahead_colon (afterKey beforeValue : Blanks) (text : List UInt8) (d : Nat) :
    (s.goTo (afterKey.bytes ++ ascii ':' :: (beforeValue.bytes ++ text)) d).colon.Ahead text := by
  refine ⟨rfl, _, .separated afterKey beforeValue (.inr rfl), ?_⟩
  show afterKey.bytes ++ ascii ':' :: (beforeValue.bytes ++ text) = _
  simp

end ProtoJson.Reader
