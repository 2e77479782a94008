import ProtoJson.Proofs.Reader.Bounds

/-!
# What a read depends on

Two inputs that agree up to a closing brace are read alike as long as the cursor does not pass that
brace. Numbers end in front of it, a literal that it cuts short is invalid whatever follows, and
where the closing quote of a string is missing, recovery runs to the end of the input and so past
the brace.
-/

namespace ProtoJson

/-! ## Texts -/

/-- The texts agree in their first bytes, that many of them, and the last of these is a closing
brace. -/
inductive Agree : Nat → List UInt8 → List UInt8 → Prop where
  | brace (r r' : List UInt8) : Agree 1 (ascii '}' :: r) (ascii '}' :: r')
  | cons {n : Nat} {text text' : List UInt8} (b : UInt8) (h : Agree n text text') :
    Agree (n + 1) (b :: text) (b :: text')

/-- A string that is not closed stands in front. -/
def Unclosed (text : List UInt8) : Prop :=
  ∃ r, text = ascii '"' :: r ∧ TokenKind.stringBody? r = none

/-- In an unclosed string, no item ends. -/
theorem itemLength_unclosed {r : List UInt8} (h : TokenKind.stringBody? r = none) (p d : Nat) :
    itemLength p d .inside r = p + r.length := by
  fun_induction TokenKind.stringBody? r generalizing p with
  | case1 => rfl
  | case2 => cases h
  | case3 => simp [itemLength]
  | case4 c r hq ih =>
    rw [itemLength, QuoteMode.afterInside, if_pos rfl, itemLength, ih (by simpa using h)]
    simp only [List.length_cons]
    omega
  | case5 b r hb hb' ih =>
    rw [itemLength, QuoteMode.afterInside, if_neg hb', if_neg hb, ih (by simpa using h)]
    simp only [List.length_cons]
    omega

theorem Unclosed.itemLength {text : List UInt8} (h : Unclosed text) (d : Nat) :
    itemLength 0 d .outside text = text.length := by
  obtain ⟨r, rfl, hr⟩ := h
  rw [ProtoJson.itemLength, if_pos rfl, itemLength_unclosed hr, List.length_cons]
  omega

namespace Agree

variable {n : Nat} {text text' : List UInt8}

/-- Where two texts go on differently after a closing brace. -/
theorem append_brace (x r r' : List UInt8) :
    Agree (x.length + 1) (x ++ ascii '}' :: r) (x ++ ascii '}' :: r') := by
  induction x with
  | nil => exact .brace r r'
  | cons b x ih => exact .cons b ih

theorem le_length (h : Agree n text text') : n ≤ text.length := by
  induction h with
  | brace r r' => simp
  | cons b _ ih => simpa using ih

theorem exists_cons (h : Agree n text text') : ∃ b r r', text = b :: r ∧ text' = b :: r' := by
  cases h with
  | brace r r' => exact ⟨_, r, r', rfl, rfl⟩
  | cons b h => exact ⟨b, _, _, rfl, rfl⟩

/-- Behind a byte that is no closing brace the texts still agree. -/
theorem tail {b : UInt8} {r r' : List UInt8} (h : Agree n (b :: r) (b :: r')) (hb : b ≠ ascii '}') :
    1 < n := by
  cases h with
  | brace => exact absurd rfl hb
  | cons _ h => cases h <;> omega

theorem drop (h : Agree n text text') {k : Nat} (hk : k < n) :
    Agree (n - k) (text.drop k) (text'.drop k) := by
  induction h generalizing k with
  | brace r r' =>
    obtain rfl : k = 0 := by omega
    exact .brace r r'
  | @cons n text text' b h ih =>
    cases k with
    | zero => exact .cons b h
    | succ k =>
      rw [Nat.add_sub_add_right]
      exact ih (by omega)

theorem take (h : Agree n text text') {k : Nat} (hk : k ≤ n) : text'.take k = text.take k := by
  induction h generalizing k with
  | brace r r' =>
    obtain rfl | rfl : k = 0 ∨ k = 1 := by omega
    · rfl
    · rfl
  | cons b _ ih =>
    cases k with
    | zero => rfl
    | succ k => rw [List.take_succ_cons, List.take_succ_cons, ih (by omega)]

theorem takeWhile (h : Agree n text text') {p : UInt8 → Bool} (hp : p (ascii '}') = false) :
    text'.takeWhile p = text.takeWhile p ∧ (text.takeWhile p).length < n := by
  induction h with
  | brace r r' =>
    rw [List.takeWhile_cons_of_neg (by simp [hp]), List.takeWhile_cons_of_neg (by simp [hp])]
    exact ⟨rfl, Nat.zero_lt_one⟩
  | cons b _ ih =>
    cases hb : p b with
    | true =>
      rw [List.takeWhile_cons_of_pos hb, List.takeWhile_cons_of_pos hb, ih.1]
      exact ⟨rfl, Nat.succ_lt_succ ih.2⟩
    | false =>
      rw [List.takeWhile_cons_of_neg (by simp [hb]), List.takeWhile_cons_of_neg (by simp [hb])]
      exact ⟨rfl, Nat.zero_lt_succ _⟩

theorem find? (h : Agree n text text') {p : UInt8 → Bool} (hp : p (ascii '}') = true) :
    text'.find? p = text.find? p := by
  induction h with
  | brace r r' => rw [List.find?_cons_of_pos hp, List.find?_cons_of_pos hp]
  | cons b _ ih => rw [List.find?_cons, List.find?_cons, ih]

/-- A word without braces is in front of both texts or of none. -/
theorem isPrefixOf (h : Agree n text text') {word : List UInt8} (hw : ascii '}' ∉ word) :
    word.isPrefixOf text' = word.isPrefixOf text := by
  induction h generalizing word with
  | brace r r' =>
    cases word with
    | nil => rfl
    | cons c w =>
      have hc : (c == ascii '}') = false := by
        rw [beq_eq_false_iff_ne]
        rintro rfl
        exact hw List.mem_cons_self
      simp [List.isPrefixOf, hc]
  | cons b _ ih =>
    cases word with
    | nil => rfl
    | cons c w =>
      rw [List.isPrefixOf, List.isPrefixOf, ih fun hmem => hw (List.mem_cons_of_mem c hmem)]

/-- An item that ends in front of the closing brace ends at the same place. -/
theorem itemLength (h : Agree n text text') {p d : Nat} {mode : QuoteMode}
    (hlt : ProtoJson.itemLength p d mode text < p + n) :
    ProtoJson.itemLength p d mode text' = ProtoJson.itemLength p d mode text := by
  induction h generalizing p d mode with
  | brace r r' =>
    rcases itemLength_ends_or_passes d mode (ascii '}') with ⟨-, hends⟩ | ⟨d', mode', hpasses⟩
    · rw [hends, hends]
    · -- The brace would be passed.
      rw [hpasses] at hlt
      exact absurd hlt (Nat.not_lt.2 (le_itemLength (p + 1) d' mode' r))
  | cons b _ ih =>
    rcases itemLength_ends_or_passes d mode b with ⟨-, hends⟩ | ⟨d', mode', hpasses⟩
    · rw [hends, hends]
    · rw [hpasses] at hlt ⊢
      rw [hpasses]
      exact ih (by omega)

/-- A string that is closed in front of the brace is the same in both texts. -/
theorem stringBody? (h : Agree n text text') {raw : List UInt8} {escaped : Bool}
    (hbody : TokenKind.stringBody? text = some (raw, escaped)) (hle : raw.length + 1 ≤ n) :
    TokenKind.stringBody? text' = some (raw, escaped) := by
  obtain ⟨hraw, rfl, rest, rfl⟩ := TokenKind.of_stringBody? hbody
  have htake := h.take hle
  have hlen : (raw ++ [ascii '"']).length = raw.length + 1 := by simp
  rw [List.append_cons, ← hlen, List.take_left] at htake
  rw [← List.take_append_drop (raw ++ [ascii '"']).length text', htake, List.append_assoc]
  exact TokenKind.stringBody?_append raw _ hraw

theorem keyword (h : Agree n text text') {word : String} (kind : TokenKind)
    (hw : ascii '}' ∉ Utf8.ofString word) :
    TokenKind.keyword word kind text' = TokenKind.keyword word kind text := by
  rw [TokenKind.keyword, TokenKind.keyword, h.isPrefixOf hw]

/-- A token that ends at or before the brace is scanned in both texts, and where none is scanned,
this is so in both texts or a string is not closed. -/
theorem scan (h : Agree n text text') :
    (∀ k m, TokenKind.scan text = .ok (k, m) → m ≤ n → TokenKind.scan text' = .ok (k, m)) ∧
      ∀ fault, TokenKind.scan text = .error fault →
        Unclosed text ∨ TokenKind.scan text' = .error fault := by
  have hsame : TokenKind.scan text' = TokenKind.scan text →
      (∀ k m, TokenKind.scan text = .ok (k, m) → m ≤ n → TokenKind.scan text' = .ok (k, m)) ∧
        ∀ fault, TokenKind.scan text = .error fault →
          Unclosed text ∨ TokenKind.scan text' = .error fault := by
    intro heq
    rw [heq]
    exact ⟨fun _ _ hk _ => hk, fun _ he => .inr he⟩
  obtain ⟨b, r, r', rfl, rfl⟩ := h.exists_cons
  by_cases hbracket : TokenKind.isBracket b = true
  · apply hsame
    rw [TokenKind.scan, TokenKind.scan, if_pos hbracket, if_pos hbracket]
  by_cases hquote : b = ascii '"'
  -- Only a string may go on behind the brace.
  · subst hquote
    have hbrace : ascii '"' ≠ ascii '}' := by decide
    have htail : Agree (n - 1) r r' := h.drop (h.tail hbrace)
    rw [TokenKind.scan, TokenKind.scan]
    simp only [hbracket, if_true, Bool.false_eq_true, if_false]
    cases hbody : TokenKind.stringBody? r with
    | none =>
      refine ⟨fun k m hk => ?_, fun _ _ => .inl ⟨r, rfl, hbody⟩⟩
      cases hk
    | some body =>
      obtain ⟨raw, escaped⟩ := body
      constructor
      · intro k m hk hm
        cases hk
        rw [htail.stringBody? hbody (by omega)]
      · intro fault he
        cases he
  · apply hsame
    rw [TokenKind.scan, TokenKind.scan]
    simp only [hbracket, hquote, if_false, Bool.false_eq_true]
    rw [(h.takeWhile (p := TokenKind.isNumberByte) (by decide)).1, h.keyword _ (by decide +kernel),
      h.keyword _ (by decide +kernel), h.keyword _ (by decide +kernel)]

end Agree

/-! ## Readers -/

/-- The same token of another input. -/
def Token.on (input : List UInt8) (t : Token) : Token := { t with source := input.drop t.offset }

namespace Reader

/-- The reader at the same place of another input. -/
def on (input : List UInt8) (s : Reader) : Reader :=
  { s with
    rest := input.drop s.offset
    token := s.token.map (Token.on input) }

section

variable (input : List UInt8) (s : Reader)

@[simp] theorem options_on : (s.on input).options = s.options := rfl

@[simp] theorem rest_on : (s.on input).rest = input.drop s.offset := rfl

@[simp] theorem offset_on : (s.on input).offset = s.offset := rfl

@[simp] theorem pending_on : (s.on input).pending = s.pending := rfl

@[simp] theorem depth_on : (s.on input).depth = s.depth := rfl

@[simp] theorem token_on : (s.on input).token = s.token.map (Token.on input) := rfl

@[simp] theorem separate_on (separator : UInt8) :
    (s.on input).separate separator = (s.separate separator).on input := rfl

@[simp] theorem comma_on : (s.on input).comma = s.comma.on input := rfl

@[simp] theorem colon_on : (s.on input).colon = s.colon.on input := rfl

theorem on_eq_of_token (ht : s.token = none) :
    s.on input = { s with rest := input.drop s.offset } := by
  obtain ⟨options, rest, offset, token, pending, depth⟩ := s
  cases ht
  rfl

theorem advance_on (n : Nat) : (s.on input).advance n = (s.advance n).on input := by
  simp only [advance, on, List.drop_drop]

end

/-- The outcome `r'` of a read of another input is the outcome `r` of the same read at `s`, as long
as the cursor has not passed `stop`: a read that gives `a` gives `f a` there, and a read that fails
fails there as well, unless it has come to a string that is not closed. -/
structure Follows (stop : Nat) (input' : List UInt8) (s : Reader) {α : Type} (f : α → α)
    (r r' : Except SyntaxError α × Reader) : Prop where
  offset_le : s.offset ≤ r.2.offset
  ok : ∀ a, r.1 = .ok a → r.2.offset ≤ stop → r' = (.ok (f a), r.2.on input')
  error : ∀ e, r.1 = .error e → r.2.offset < stop →
    Unclosed r.2.rest ∨ ∃ e', r' = (.error e', r.2.on input')

variable {input input' : List UInt8} {stop : Nat} {s s' s₁ : Reader}

namespace Follows

variable {α : Type} {f : α → α} {r r' : Except SyntaxError α × Reader}

theorem of_ok {a : α} (hle : s.offset ≤ s'.offset)
    (h : s'.offset ≤ stop → r' = (.ok (f a), s'.on input')) :
    Follows stop input' s f (.ok a, s') r' := by
  refine ⟨hle, fun a' ha => ?_, fun e he => ?_⟩
  · cases ha
    exact h
  · cases he

theorem of_error {e : SyntaxError} (hle : s.offset ≤ s'.offset)
    (h : s'.offset < stop → Unclosed s'.rest ∨ ∃ e', r' = (.error e', s'.on input')) :
    Follows stop input' s f (.error e, s') r' := by
  refine ⟨hle, fun a ha => ?_, fun e' he => ?_⟩
  · cases ha
  · cases he
    exact h

theorem eq_ok {a : α} (h : Follows stop input' s f r r') (hr : r = (.ok a, s₁))
    (hle : s₁.offset ≤ stop) : r' = (.ok (f a), s₁.on input') := by
  subst hr
  exact h.ok a rfl hle

theorem after (h : Follows stop input' s₁ f r r') (hle : s.offset ≤ s₁.offset) :
    Follows stop input' s f r r' := ⟨le_trans hle h.offset_le, h.ok, h.error⟩

/-- Reads follow one another. -/
theorem chain {β : Type} {d : Nat} {g : β → β} {k k' : α → Reader → Except SyntaxError β × Reader}
    (hmoves : Moves input s d r) (h : Follows stop input' s f r r')
    (hk : ∀ a s₁, r = (.ok a, s₁) → s₁.Within input → s₁.token = none →
      Follows stop input' s₁ g (k a s₁) (k' (f a) (s₁.on input'))) :
    Follows stop input' s g (Reader.chain r k) (Reader.chain r' k') := by
  obtain ⟨e | a, s₁⟩ := r
  · apply Follows.of_error h.offset_le
    intro hlt
    rcases h.error e rfl hlt with hopen | ⟨e', rfl⟩
    · exact .inl hopen
    · exact .inr ⟨e', rfl⟩
  · obtain ⟨htoken, -⟩ : s₁.token = none ∧ s₁.depth = d := hmoves.leaves a rfl
    have hnext := hk a s₁ rfl hmoves.proceeds.within htoken
    refine ⟨le_trans h.offset_le hnext.offset_le, fun b hb hstop => ?_, fun e he hlt => ?_⟩
    · rw [h.ok a rfl (le_trans hnext.offset_le hstop)]
      exact hnext.ok b hb hstop
    · rw [h.ok a rfl (Nat.le_of_lt (lt_of_le_of_lt hnext.offset_le hlt))]
      exact hnext.error e he hlt

/-- A read from behind the brace needs no comparison. -/
theorem of_lt (hproceeds : Proceeds input s r.2)
    (hadvances : ∀ a, r.1 = .ok a → s.offset < r.2.offset)
    (h : s.offset < stop → Follows stop input' s f r r') : Follows stop input' s f r r' where
  offset_le := hproceeds.offset_le
  ok a ha hle := (h (lt_of_lt_of_le (hadvances a ha) hle)).ok a ha hle
  error e he hlt := (h (lt_of_le_of_lt hproceeds.offset_le hlt)).error e he hlt

end Follows

/-- Where no token is kept, what a read takes is taken from the input. -/
theorem Within.offset_lt (h : s.Within input) (h' : s'.Within input) (ht : s.token = none)
    (hlt : s'.remaining < s.remaining) : s.offset < s'.offset := by
  have hle := h.offset_le
  have hle' := h'.offset_le
  have hlen := h.length_rest
  have hlen' := h'.length_rest
  simp only [remaining, ht, Option.toList_none, List.length_nil] at hlt
  omega

/-- A read that succeeds moves the cursor, where no token is kept. -/
theorem Within.advances {α : Type} {r : Except SyntaxError α × Reader} (h : s.Within input)
    (ht : s.token = none) (hr : r.2.Within input) (hprogress : Progress s r) :
    ∀ a, r.1 = .ok a → s.offset < r.2.offset :=
  fun a ha => h.offset_lt hr ht (hprogress.2 a ha)

theorem Within.close_advances {α : Type} (h : s.Within input) (ht : s.token = none) {b : UInt8}
    (hb : IsCloser b) (content : α) :
    ∀ a, (s.close b content).1 = .ok a → s.offset < (s.close b content).2.offset :=
  h.advances ht (h.close hb content).proceeds.within (close_progress s b content)

/-- Members end with their closing brace, which is taken from the input. -/
theorem Within.members_advances (h : s.Within input) (ht : s.token = none)
    (ms : List (String × Value)) :
    ∀ a, (s.members ms).1 = .ok a → s.offset < (s.members ms).2.offset := by
  intro a ha
  rw [members_eq_chain] at ha ⊢
  split at ha
  · next hat =>
    rw [if_pos hat]
    exact h.close_advances ht (.inl rfl) ms a ha
  · next hat =>
    rw [if_neg hat]
    have hstring := h.string
    have hlt := h.advances ht hstring.proceeds.within (string_progress s)
    rcases hkey : s.string with ⟨e | key, s₁⟩ <;> rw [hkey] at hstring hlt ha
    · cases ha
    · have hvalue := (hstring.proceeds.within.separate (ascii ':')).within.value
      have hrest := (hvalue.within.separate (ascii ',')).within.members
        (Value.insertMember key s₁.colon.value.1 ms)
      exact lt_of_lt_of_le (hlt key rfl) (le_trans hvalue.offset_le hrest.proceeds.offset_le)

private theorem passesOn_advances (input : List UInt8) : PassesOn (fun _ => True) (fun _ _ => True)
    (fun s vs => s.Within input → s.token = none →
      ∀ a, (s.items vs).1 = .ok a → s.offset < (s.items vs).2.offset) where
  value _ _ := trivial
  members _ _ _ := trivial
  items s vs hin h ht a ha := by
    rw [items_eq] at ha ⊢
    split at ha
    · next hat =>
      rw [if_pos hat]
      exact h.close_advances ht (.inr rfl) vs.reverse a ha
    · next hat =>
      rw [if_neg hat]
      split at ha
      · next hpeek =>
        rw [if_pos hpeek]
        have hvalue := h.value
        exact lt_of_le_of_lt hvalue.offset_le ((hin hpeek).2 _
          (hvalue.within.separate (ascii ',')).within hvalue.token a ha)
      · cases ha

/-- Items end with their closing bracket, which is taken from the input. -/
theorem Within.items_advances (h : s.Within input) (ht : s.token = none) (vs : List Value) :
    ∀ a, (s.items vs).1 = .ok a → s.offset < (s.items vs).2.offset :=
  (passesOn_advances input).items_all s vs h ht

variable (hagree : Agree stop input input')

include hagree

theorem agree_rest (h : s.Within input) (hlt : s.offset < stop) :
    Agree (stop - s.offset) s.rest (s.on input').rest := by
  rw [h.rest]
  exact hagree.drop hlt

theorem skipBlanks_on (h : s.Within input) (hlt : s.offset < stop) :
    (s.on input').skipBlanks = s.skipBlanks.on input' ∧ s.skipBlanks.offset < stop := by
  obtain ⟨heq, hlen⟩ := (agree_rest hagree h hlt).takeWhile (p := isBlank) (by decide)
  refine ⟨?_, ?_⟩
  · rw [skipBlanks, heq, advance_on]
    rfl
  · show s.offset + (s.rest.takeWhile isBlank).length < stop
    omega

theorem scanToken_on (h : s.Within input) (hlt : s.offset < stop) :
    Follows stop input' s (Token.on input') s.scanToken (s.on input').scanToken := by
  obtain ⟨hok, herror⟩ := (agree_rest hagree h hlt).scan
  unfold scanToken
  cases hscan : TokenKind.scan s.rest with
  | error fault =>
    apply Follows.of_error (le_refl _)
    intro _
    rcases herror fault hscan with hopen | hscan'
    · exact .inl hopen
    · rw [hscan']
      exact .inr ⟨_, rfl⟩
  | ok km =>
    obtain ⟨k, m⟩ := km
    apply Follows.of_ok (Nat.le_add_right _ _)
    intro hle
    have hm : m ≤ stop - s.offset := by
      have hle' : s.offset + m ≤ stop := hle
      omega
    rw [hok k m hscan hm]
    dsimp only
    rw [advance_on]
    rfl

theorem scanUnseparated_on (h : s.Within input) (hlt : s.offset < stop) :
    Follows stop input' s (Token.on input') s.scanUnseparated (s.on input').scanUnseparated := by
  obtain ⟨hskip, hlt'⟩ := skipBlanks_on hagree h hlt
  have hwithin := h.skipBlanks.within
  obtain ⟨b, r, r', hrest, hrest'⟩ := (agree_rest hagree hwithin hlt').exists_cons
  refine Follows.after ?_ h.skipBlanks.offset_le
  unfold scanUnseparated
  dsimp only
  rw [hskip, hrest, hrest']
  dsimp only
  split
  · exact .of_error (le_refl _) fun _ => .inr ⟨_, rfl⟩
  · exact scanToken_on hagree hwithin hlt'

theorem scan_on (h : s.Within input) (hlt : s.offset < stop) :
    Follows stop input' s (Token.on input') s.scan (s.on input').scan := by
  obtain ⟨hskip, hlt'⟩ := skipBlanks_on hagree h hlt
  have hwithin := h.skipBlanks.within
  have hrestagree := agree_rest hagree hwithin hlt'
  obtain ⟨b, r, r', hrest, hrest'⟩ := hrestagree.exists_cons
  unfold scan
  rw [pending_on]
  cases s.pending with
  | none => exact scanUnseparated_on hagree h hlt
  | some p =>
    refine Follows.after ?_ h.skipBlanks.offset_le
    dsimp only
    rw [hskip, hrest, hrest']
    dsimp only
    split
    · next hsep =>
      split
      · -- The separator is not the brace, so it stands in front of it.
        have hbrace : b ≠ ascii '}' := by rcases hsep with rfl | rfl <;> decide
        rw [hrest, hrest'] at hrestagree
        have hmore := hrestagree.tail hbrace
        have hadv := hwithin.advance (n := 1) (by rw [hrest]; simp)
        have hpassed : { s.skipBlanks.advance 1 with pending := none }.Within input :=
          ⟨hadv.within.offset_le, hadv.within.rest, hadv.within.depth_le, hadv.within.token⟩
        have hpassed_on : { (s.skipBlanks.on input').advance 1 with pending := none }
            = { s.skipBlanks.advance 1 with pending := none }.on input' := by
          rw [advance_on]
          rfl
        rw [hpassed_on]
        have hlt₁ : s.skipBlanks.offset + 1 < stop := by omega
        exact (scanUnseparated_on hagree hpassed hlt₁).after hadv.offset_le
      · exact .of_error (le_refl _) fun _ => .inr ⟨_, rfl⟩
    · split
      · have hsame : { s.skipBlanks with pending := none }.Within input :=
          ⟨hwithin.offset_le, hwithin.rest, hwithin.depth_le, hwithin.token⟩
        rw [← hrest, ← hrest']
        exact (scanToken_on hagree hsame hlt').after (le_refl s.skipBlanks.offset)
      · exact .of_error (le_refl _) fun _ => .inr ⟨_, rfl⟩

theorem nextToken_on (h : s.Within input) (ht : s.token = none) :
    Follows stop input' s (Token.on input') s.nextToken (s.on input').nextToken := by
  apply Follows.of_lt h.nextToken.1.proceeds
  · intro t hok
    exact h.offset_lt h.nextToken.1.proceeds.within ht ((nextToken_progress rfl).2.2 t hok)
  · intro hlt
    rw [nextToken, nextToken, token_on, ht]
    exact scan_on hagree h hlt

theorem expect_on {α : Type} (h : s.Within input) (ht : s.token = none) (c : TokenClass)
    (accept : TokenKind → Option α) :
    Follows stop input' s (Prod.map (Token.on input') id) (s.expect c accept)
      ((s.on input').expect c accept) := by
  rw [expect_eq_chain, expect_eq_chain]
  apply (nextToken_on hagree h ht).chain h.nextToken.1.toMoves
  intro t s₁ _ _ _
  have hkind : (t.on input').kind = t.kind := rfl
  rw [hkind]
  cases accept t.kind with
  | none => exact .of_error (le_refl _) fun _ => .inr ⟨_, rfl⟩
  | some a => exact .of_ok (le_refl _) fun _ => rfl

omit hagree in
/-- What is made of a token may depend on where it stands only in its errors. -/
theorem Follows.of_toOption {α : Type} {x x' : Except SyntaxError α} (s : Reader)
    (h : x'.toOption = x.toOption) : Follows stop input' s id (x, s) (x', s.on input') := by
  cases x with
  | error e =>
    cases x' with
    | error e' => exact .of_error (le_refl _) fun _ => .inr ⟨e', rfl⟩
    | ok a' => cases h
  | ok a =>
    cases x' with
    | error e' => cases h
    | ok a' =>
      cases h
      exact .of_ok (le_refl _) fun _ => rfl

theorem andThen_expect_on {α β : Type} (h : s.Within input) (ht : s.token = none) {c : TokenClass}
    {accept : TokenKind → Option α} {f : Token × α → Except SyntaxError β}
    (hf : ∀ t a, (f (t.on input', a)).toOption = (f (t, a)).toOption) :
    Follows stop input' s id (andThen (s.expect c accept) f)
      (andThen ((s.on input').expect c accept) f) := by
  rw [andThen_eq_chain, andThen_eq_chain]
  apply (expect_on hagree h ht c accept).chain (h.expect c accept).1.toMoves
  rintro ⟨t, a⟩ s₁ _ _ _
  exact .of_toOption s₁ (hf t a)

omit hagree

theorem text?_on (t : Token) (options : ReadOptions) (raw : List UInt8) (escaped : Bool) :
    ((t.on input).text? options raw escaped).toOption
      = (t.text? options raw escaped).toOption := by
  unfold Token.text?
  split
  · rfl
  · split
    · split <;> rfl
    · rfl

theorem integer?_on (t : Token) (kind : IntegerKind) (text : List Char) :
    ((t.on input).integer? kind text).toOption = (t.integer? kind text).toOption := by
  unfold Token.integer?
  split <;> rfl

theorem binary?_on (t : Token) (fmt : BinaryFormat) (text : List Char) :
    ((t.on input).binary? fmt text).toOption = (t.binary? fmt text).toOption := by
  unfold Token.binary?
  split <;> rfl

theorem toOption_map {α β : Type} (x : Except SyntaxError α) (f : α → β) :
    (x.map f).toOption = x.toOption.map f := by
  cases x <;> rfl

theorem toOption_bind {α β : Type} (x : Except SyntaxError α) (f : α → Except SyntaxError β) :
    (x.bind f).toOption = x.toOption.bind fun a => (f a).toOption := by
  cases x <;> rfl

include hagree

theorem bool_on (h : s.Within input) (ht : s.token = none) :
    Follows stop input' s id s.bool (s.on input').bool :=
  andThen_expect_on hagree h ht fun _ _ => rfl

theorem string_on (h : s.Within input) (ht : s.token = none) :
    Follows stop input' s id s.string (s.on input').string :=
  andThen_expect_on hagree h ht fun t _ => text?_on t _ _ _

theorem bytes_on (h : s.Within input) (ht : s.token = none) :
    Follows stop input' s id s.bytes (s.on input').bytes := by
  apply andThen_expect_on hagree h ht
  intro t a
  dsimp only
  split
  · split <;> rfl
  · rfl

theorem integer_on (h : s.Within input) (ht : s.token = none) (kind : IntegerKind) :
    Follows stop input' s id (s.integer kind) ((s.on input').integer kind) :=
  andThen_expect_on hagree h ht fun t _ => integer?_on t kind _

theorem binary_on (h : s.Within input) (ht : s.token = none) (fmt : BinaryFormat) :
    Follows stop input' s id (s.binary fmt) ((s.on input').binary fmt) :=
  andThen_expect_on hagree h ht fun t _ => binary?_on t fmt _

theorem enumReference_on (h : s.Within input) (ht : s.token = none) :
    Follows stop input' s id s.enumReference (s.on input').enumReference := by
  apply andThen_expect_on hagree h ht
  intro t a
  rcases a with ⟨raw, escaped⟩ | text <;> dsimp only
  · rw [toOption_map, toOption_map, text?_on]
  · rw [toOption_map, toOption_map, integer?_on]

theorem mapKey_on (h : s.Within input) (ht : s.token = none) (kind : KeyKind) :
    Follows stop input' s id (s.mapKey kind) ((s.on input').mapKey kind) := by
  apply andThen_expect_on hagree h ht
  intro t a
  dsimp only
  rw [toOption_bind, toOption_bind, text?_on]
  congr 1
  funext text
  cases MapKey.parse? kind text <;> rfl

/-! ## Brackets -/

omit hagree in
theorem enter_on (t : Token) :
    Follows stop input' s id (s.enter t) ((s.on input').enter (t.on input')) := by
  unfold enter
  rw [depth_on]
  split
  · exact .of_ok (le_refl _) fun _ => rfl
  · exact .of_error (le_refl _) fun _ => .inr ⟨_, rfl⟩

theorem symbol_on (h : s.Within input) (ht : s.token = none) (b : UInt8) :
    Follows stop input' s id (s.symbol b) ((s.on input').symbol b) := by
  rw [symbol_eq_chain, symbol_eq_chain]
  apply (expect_on hagree h ht _ _).chain (h.expect _ _).1.toMoves
  intro r s₁ _ _ _
  split
  · exact enter_on r.1
  · split <;> exact .of_ok (le_refl _) fun _ => rfl

theorem close_on {α : Type} (h : s.Within input) (ht : s.token = none) (bracket : UInt8)
    (content : α) :
    Follows stop input' s id (s.close bracket content) ((s.on input').close bracket content) := by
  unfold close
  rw [andThen_eq_chain, andThen_eq_chain]
  have hcomma : s.comma.Within input := (h.separate _).within
  refine Follows.after ?_ (le_refl s.comma.offset)
  apply (symbol_on hagree hcomma ht bracket).chain (hcomma.symbol bracket).toMoves
  intro _ s₁ _ _ _
  exact .of_ok (le_refl _) fun _ => rfl

theorem atSymbol_on (h : s.Within input) (ht : s.token = none) (hlt : s.offset < stop)
    (b : UInt8) : (s.on input').atSymbol b = s.atSymbol b ∧ (s.on input').peek? = s.peek? := by
  have hpeek : (s.on input').peek? = s.peek? :=
    (agree_rest hagree h hlt).find? (p := fun b => !isBlank b) (by decide)
  refine ⟨?_, hpeek⟩
  rw [atSymbol, atSymbol, token_on, ht]
  dsimp only [Option.map_none]
  rw [hpeek]

/-! ## Values of any shape -/

omit hagree in
theorem tokenValue_on (t : Token) :
    ((s.on input').tokenValue (t.on input')).toOption = (s.tokenValue t).toOption := by
  unfold tokenValue
  have hkind : (t.on input').kind = t.kind := rfl
  rw [hkind]
  split
  · rfl
  · rfl
  · rw [toOption_map, toOption_map, binary?_on]
  · rw [toOption_map, toOption_map, text?_on]
    rfl
  · rfl

/-- Recovery that stops in front of the brace depends on nothing behind it. -/
theorem recoverFrom_on (h : s.Within input) (h₁ : s₁.Within input) (hle : s.offset ≤ s₁.offset)
    (hlt : (s₁.recoverFrom s).offset < stop) :
    (s₁.on input').recoverFrom (s.on input') = (s₁.recoverFrom s).on input' := by
  have hoffset : (s₁.recoverFrom s).offset
      = s₁.offset + itemLength 0 (s₁.openSince s) .outside s₁.rest := rfl
  have hopen : (s₁.on input').openSince (s.on input') = s₁.openSince s := by
    have htake := (agree_rest hagree h (by omega)).take (k := s₁.offset - s.offset) (by omega)
    rw [openSince, openSince, offset_on, offset_on, htake]
  have hitem : itemLength 0 (s₁.openSince s) .outside (s₁.on input').rest
      = itemLength 0 (s₁.openSince s) .outside s₁.rest :=
    (agree_rest hagree h₁ (by omega)).itemLength (by omega)
  unfold recoverFrom
  rw [hopen, hitem, advance_on]
  rfl

omit hagree in
/-- What stands in a container is read alike in both inputs. -/
theorem container_on {α : Type} {t : Token} {body : Reader → Except SyntaxError α × Reader}
    {f : α → Value} (h : s.Within input) (hnone : s.token = none) (ht : t.offset ≤ s.offset)
    (hmoves : ∀ s₁, s₁.Within input → Moves input s₁ (s₁.depth - 1) (body s₁))
    (hbody : ∀ s₁, s.enter t = (.ok (), s₁) → s₁.Within input → s₁.token = none →
      Follows stop input' s₁ id (body s₁) (body (s₁.on input'))) :
    Follows stop input' s id
      (chain (s.enter t) fun _ s₁ => chain (body s₁) fun a s₂ => (.ok (f a), s₂))
      (chain ((s.on input').enter (t.on input')) fun _ s₁ =>
        chain (body s₁) fun a s₂ => (.ok (f a), s₂)) := by
  apply (enter_on t).chain (h.enter hnone ht).toMoves
  intro u s₁ hres hwithin htoken
  apply (hbody s₁ hres hwithin htoken).chain (hmoves s₁ hwithin)
  intro a s₂ _ _ _
  exact .of_ok (le_refl _) fun _ => rfl

theorem attempt_on (h : s.Within input) (hnone : s.token = none)
    (hin : ∀ t s₁ s₂, s.nextToken = (.ok t, s₁) → s₁.enter t = (.ok (), s₂) →
      (s₂.Within input → s₂.token = none →
          Follows stop input' s₂ id (s₂.members []) ((s₂.on input').members [])) ∧
        (s₂.Within input → s₂.token = none →
          Follows stop input' s₂ id (s₂.items []) ((s₂.on input').items []))) :
    Follows stop input' s id s.attempt (s.on input').attempt := by
  obtain ⟨hreads, hspans⟩ := h.nextToken
  rw [attempt_eq_chain, attempt_eq_chain]
  apply (nextToken_on hagree h hnone).chain hreads.toMoves
  intro t s₁ hnext hwithin htoken
  rw [hnext] at hspans
  have ht : t.offset ≤ s₁.offset := (hspans t rfl).offset_le
  have hkind : (t.on input').kind = t.kind := rfl
  rw [hkind]
  split
  · exact container_on hwithin htoken ht (fun _ hs => hs.members [])
      fun s₂ henter => (hin t s₁ s₂ hnext henter).1
  · split
    · exact container_on hwithin htoken ht (fun _ hs => hs.items [])
        fun s₂ henter => (hin t s₁ s₂ hnext henter).2
    · exact .of_toOption s₁ (tokenValue_on t)

/-- What a value is read as depends on nothing behind the brace, if the cursor stops in front of
it. -/
theorem value_on_of_attempt (h : s.Within input) (hmoves : Moves input s s.depth s.attempt)
    (hattempt : Follows stop input' s id s.attempt (s.on input').attempt)
    (hlt : s.value.2.offset < stop) :
    (s.on input').value = (s.value.1, s.value.2.on input') := by
  rw [value_eq_attempt] at hlt
  rw [value_eq_attempt, value_eq_attempt]
  rcases hres : s.attempt with ⟨e | v, s₁⟩ <;> rw [hres] at hattempt hmoves hlt
  · have hle : s₁.offset ≤ (s₁.recoverFrom s).offset := Nat.le_add_right _ _
    rcases hattempt.error e rfl (lt_of_le_of_lt hle hlt) with hopen | ⟨e', he'⟩
    · -- Behind an unclosed string, recovery runs to the end of the input.
      have hend : (s₁.recoverFrom s).offset = s₁.offset + s₁.rest.length :=
        congrArg (s₁.offset + ·) (hopen.itemLength _)
      have hlen := hmoves.proceeds.within.length_rest
      have hle₁ := hmoves.proceeds.within.offset_le
      have hstop := hagree.le_length
      dsimp only at hlt hlen hle₁
      omega
    · rw [he']
      dsimp only
      rw [recoverFrom_on hagree h hmoves.proceeds.within hmoves.proceeds.offset_le hlt]
  · rw [hattempt.ok v rfl (Nat.le_of_lt hlt)]
    rfl

theorem passesOn_follows : PassesOn
    (fun s => s.Within input → s.token = none → s.value.2.offset < stop →
      (s.on input').value = (s.value.1, s.value.2.on input'))
    (fun s ms => s.Within input → s.token = none →
      Follows stop input' s id (s.members ms) ((s.on input').members ms))
    (fun s vs => s.Within input → s.token = none →
      Follows stop input' s id (s.items vs) ((s.on input').items vs)) where
  value s hin h ht hlt := by
    have hmoves : Moves input s s.depth s.attempt :=
      .attempt h fun _ _ s₂ _ _ => ⟨fun hs => hs.members [], fun hs => hs.items []⟩
    exact value_on_of_attempt hagree h hmoves (attempt_on hagree h ht hin) hlt
  members s ms hin h ht := by
    apply Follows.of_lt (h.members ms).proceeds (h.members_advances ht ms)
    intro hlt
    rw [members_eq_chain, members_eq_chain, (atSymbol_on hagree h ht hlt _).1]
    split
    · exact close_on hagree h ht _ _
    · apply (string_on hagree h ht).chain h.string.toMoves
      intro key s₁ hkey hwithin htoken
      obtain ⟨hvalue, hmembers⟩ := hin key s₁ hkey
      have hcolon := hwithin.separate (ascii ':')
      have hskips := hcolon.within.value
      have hcomma := hskips.within.separate (ascii ',')
      refine Follows.after ?_ (le_trans hskips.offset_le hcomma.offset_le)
      apply Follows.of_lt (hcomma.within.members _).proceeds
        (hcomma.within.members_advances hskips.token _)
      -- The members go on in front of the brace, so that is where the value ends.
      intro hlt₂
      rw [colon_on, hvalue hcolon.within htoken hlt₂]
      exact hmembers _ hcomma.within hskips.token
  items s vs hin h ht := by
    apply Follows.of_lt (h.items vs).proceeds (h.items_advances ht vs)
    intro hlt
    rw [items_eq, items_eq, (atSymbol_on hagree h ht hlt _).1, (atSymbol_on hagree h ht hlt 0).2]
    split
    · exact close_on hagree h ht _ _
    · split
      · next hpeek =>
        obtain ⟨hvalue, hitems⟩ := hin hpeek
        have hskips := h.value
        have hcomma := hskips.within.separate (ascii ',')
        refine Follows.after ?_ (le_trans hskips.offset_le hcomma.offset_le)
        apply Follows.of_lt (hcomma.within.items _).proceeds
          (hcomma.within.items_advances hskips.token _)
        intro hlt₂
        rw [hvalue h ht hlt₂]
        exact hitems _ hcomma.within hskips.token
      · exact .of_error (le_refl _) fun _ => .inr ⟨_, rfl⟩

/-- A value that ends in front of the brace is read alike in both inputs, also where it cannot be
read and recovery has passed it. -/
theorem value_on (h : s.Within input) (ht : s.token = none) (hlt : s.value.2.offset < stop) :
    (s.on input').value = (s.value.1, s.value.2.on input') :=
  (passesOn_follows hagree).value_all s h ht hlt

end Reader

end ProtoJson
