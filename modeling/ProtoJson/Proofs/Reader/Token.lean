import ProtoJson.Proofs.Reader.Position

/-!
# Reading the first token of a value

The scanner takes exactly the first token of a tree, and each typed read gives what the tree
converts to: `Yields` says so for success and failure at once.
-/

namespace ProtoJson

open Grammar

/-! ## Scanning -/

/-- What follows a number token: nothing that could belong to it. -/
def EndsRun (r : List UInt8) : Prop := ∀ b x, r = b :: x → TokenKind.isNumberByte b = false

theorem EndsRun.cons {b : UInt8} (hb : TokenKind.isNumberByte b = false) (x : List UInt8) :
    EndsRun (b :: x) := by
  intro b' x' h
  cases h
  exact hb

/-- Blanks belong to no number. -/
theorem EndsRun.blanks (w : Blanks) {r : List UInt8} (hr : EndsRun r) : EndsRun (w.bytes ++ r) := by
  intro b x h
  cases hw : w.bytes with
  | nil => exact hr b x (by simpa [hw] using h)
  | cons a y =>
    rw [hw, List.cons_append, List.cons.injEq] at h
    have ha : isBlank a = true := w.blank a (by simp [hw])
    rw [← h.1]
    revert ha
    exact forall_byte (p := fun a => isBlank a = true → TokenKind.isNumberByte a = false)
      (by decide +kernel) a

namespace TokenKind

/-- A string body is read up to the quote after it. -/
theorem stringBody?_append (raw r : List UInt8) (h : isStringBody raw = true) :
    stringBody? (raw ++ ascii '"' :: r) = some (raw, raw.contains (ascii '\\')) := by
  have hq : ascii '\\' ≠ ascii '"' := by decide
  fun_induction isStringBody raw with
  | case1 => rw [List.nil_append, stringBody?.eq_def]; simp
  | case2 => simp at h
  | case3 => simp at h
  | case4 c r' _ ih =>
    rw [List.cons_append, stringBody?.eq_def]
    simp [hq, ih h]
  | case5 b r' hb hb' ih =>
    rw [List.cons_append, stringBody?.eq_def]
    simp [hb, hb', ih h, Ne.symm hb']

theorem takeWhile_run {run r : List UInt8} (h : IsNumberRun run) (hr : EndsRun r) :
    (run ++ r).takeWhile isNumberByte = run := by
  rw [List.takeWhile_append_of_pos h.number]
  cases r with
  | nil => simp
  | cons b x => rw [List.takeWhile_cons_of_neg (by simp [hr b x rfl]), List.append_nil]

/-- A number token is scanned as a whole. -/
theorem scan_number {run r : List UInt8} (h : IsNumberRun run) (hr : EndsRun r) :
    scan (run ++ r) = .ok (number (numberChars run), run.length) := by
  obtain ⟨b, x, hb, hs⟩ := h.starts
  have hsym : isBracket b = false ∧ b ≠ ascii '"' := by
    revert hs
    exact forall_byte
      (p := fun b => (b = ascii '-' ∨ isDigitByte b = true) → isBracket b = false ∧ b ≠ ascii '"')
      (by decide +kernel) b
  have ht := takeWhile_run h hr
  rw [hb, List.cons_append] at ht ⊢
  rw [scan]
  simp only [hsym.1, hsym.2, hs, ht, if_true, if_false, Bool.false_eq_true]
  rfl

/-- A string token is scanned as a whole. -/
theorem scan_string (raw r : List UInt8) (h : isStringBody raw = true) :
    scan (ascii '"' :: (raw ++ ascii '"' :: r))
      = .ok (string raw (raw.contains (ascii '\\')), raw.length + 2) := by
  have hb : isBracket (ascii '"') = false := by decide
  simp [scan, hb, stringBody?_append raw r h]

end TokenKind

/-- The scanner takes the first token of a value. Only a number must be told from what follows. -/
theorem Grammar.Tree.scan_bytes {ν σ : Type} [Numeral ν] [Quotation σ] (t : Tree ν σ)
    {r : List UInt8} (hr : ∀ n, t = .number n → EndsRun r) :
    ∃ n, TokenKind.scan (t.bytes ++ r) = .ok (t.head, n) ∧ n ≤ (t.bytes ++ r).length ∧
      (t.bytes ++ r).drop n = t.tail ++ r := by
  cases t with
  | null => exact ⟨4, rfl, by simp [Tree.bytes, Utf8.ofString, Utf8.encode, Utf8.encodeChar], rfl⟩
  | bool b =>
    cases b
    · exact ⟨5, rfl, by simp [Tree.bytes, Utf8.ofString, Utf8.encode, Utf8.encodeChar], rfl⟩
    · exact ⟨4, rfl, by simp [Tree.bytes, Utf8.ofString, Utf8.encode, Utf8.encodeChar], rfl⟩
  | number n => exact ⟨_, TokenKind.scan_number (Numeral.isRun n) (hr n rfl), by simp [Tree.bytes],
      by simp [Tree.bytes, Tree.tail]⟩
  | string s =>
    refine ⟨(Quotation.raw s).length + 2, ?_, ?_, ?_⟩
    · rw [Tree.bytes, Quotation.bytes, List.cons_append, List.append_assoc, List.singleton_append]
      exact TokenKind.scan_string _ r (Quotation.isBody s)
    · simp [Tree.bytes, Quotation.bytes]
    · simp [Tree.bytes, Quotation.bytes, Tree.tail, List.drop_append]
  | array pad items => exact ⟨1, rfl, by simp [Tree.bytes], rfl⟩
  | object pad members => exact ⟨1, rfl, by simp [Tree.bytes], rfl⟩

namespace Reader

/-! ## Typed reads -/

/-- A read that gives `o` and leaves the reader at `s'`, or fails if `o` is `none`. -/
def Yields {ε α : Type} (res : Except ε α × Reader) (o : Option α) (s' : Reader) : Prop :=
  match o with
  | some a => res = (.ok a, s')
  | none => ∃ e s'', res = (.error e, s'')

theorem Yields.of_ok {ε α : Type} {res : Except ε α × Reader} {o : Option α} {a : α}
    {s s' : Reader} (h : Yields res o s) (hres : res = (.ok a, s')) : o = some a ∧ s' = s := by
  cases o with
  | none =>
    obtain ⟨e, s'', he⟩ := h
    cases hres.symm.trans he
  | some b =>
    cases hres.symm.trans h
    exact ⟨rfl, rfl⟩

variable {ν σ : Type} [Numeral ν] [Quotation σ] {s : Reader} {r : List UInt8}

/-- The next token is the first one of the value ahead. -/
theorem nextToken_tree (t : Tree ν σ) (h : s.Ahead (t.bytes ++ r))
    (hr : ∀ n, t = .number n → EndsRun r) :
    ∃ tok : Token, tok.kind = t.head ∧ s.nextToken = (.ok tok, s.goTo (t.tail ++ r) s.depth) := by
  obtain ⟨n, hk, hn, hd⟩ := t.scan_bytes hr
  obtain ⟨b, x, hb, hs⟩ := t.exists_bytes_eq_cons
  have hle := h.length_le
  rw [hb, List.cons_append] at h hk hn hd hle
  rw [nextToken_eq_scanToken h hs, ← hd]
  exact scanToken_goTo hle hk hn

/-- A read of one token gives what `f` makes of the first token ahead. -/
theorem andThen_expect_tree {α β : Type} (t : Tree ν σ) (h : s.Ahead (t.bytes ++ r))
    (hr : EndsRun r) (c : TokenClass) (accept : TokenKind → Option α)
    (f : Token × α → Except SyntaxError β) (o : Option β)
    (hf : ∀ tok a, accept t.head = some a → t.tail = [] ∧ (f (tok, a)).toOption = o)
    (hn : accept t.head = none → o = none) :
    Yields (andThen (s.expect c accept) f) o (s.goTo r s.depth) := by
  obtain ⟨tok, hk, hnext⟩ := nextToken_tree t h fun _ _ => hr
  rw [expect, hnext]
  dsimp only
  rw [hk]
  cases ha : accept t.head with
  | none =>
    rw [hn ha]
    exact ⟨_, _, rfl⟩
  | some a =>
    obtain ⟨htail, ho⟩ := hf tok a ha
    dsimp only [andThen]
    rw [htail, List.nil_append]
    cases hfa : f (tok, a) with
    | error e =>
      rw [hfa] at ho
      rw [← ho]
      exact ⟨e, s.goTo r s.depth, by simp [Except.bind, hfa]⟩
    | ok b =>
      rw [hfa] at ho
      rw [← ho]
      simp [Except.bind, hfa, Yields, Except.toOption]

/-- A string token holds the text between its quotes. -/
theorem toOption_text? (tok : Token) (options : ReadOptions) (raw : List UInt8) :
    (tok.text? options raw (raw.contains (ascii '\\'))).toOption
      = rawText? options.decodeEscapes raw := by
  unfold Token.text? rawText?
  cases Utf8.decode? raw with
  | none => rfl
  | some cs =>
    simp only [Option.bind_some]
    split
    · cases Escape.unescape? (some Utf8.replacement) cs <;> rfl
    · rfl

theorem bool_tree (t : Tree ν σ) (h : s.Ahead (t.bytes ++ r)) (hr : EndsRun r) :
    Yields s.bool t.bool? (s.goTo r s.depth) := by
  apply andThen_expect_tree t h hr
  · intro tok b hb
    cases t <;> simp_all [Tree.head, Tree.tail, Tree.bool?, TokenKind.bool?, Except.toOption]
  · intro hb
    cases t <;> simp_all [Tree.head, Tree.bool?, TokenKind.bool?]

/-- A read of a string token gives what `f` makes of the string ahead. -/
theorem andThen_expect_string {β : Type} (t : Tree ν σ) (h : s.Ahead (t.bytes ++ r))
    (hr : EndsRun r) (f : Token × List UInt8 × Bool → Except SyntaxError β) (g : σ → Option β)
    (hf : ∀ tok q, (f (tok, Quotation.raw q, (Quotation.raw q).contains (ascii '\\'))).toOption
      = g q) :
    Yields (andThen (s.expect .string TokenKind.string?) f) (t.string?.bind g)
      (s.goTo r s.depth) := by
  apply andThen_expect_tree t h hr
  · intro tok a ha
    cases t with
    | string q =>
      cases ha
      exact ⟨rfl, hf tok q⟩
    | _ => cases ha
  · intro ha
    cases t with
    | string q => cases ha
    | _ => rfl

/-- A read of a number token gives what `f` makes of the number ahead. -/
theorem andThen_expect_number {β : Type} (t : Tree ν σ) (h : s.Ahead (t.bytes ++ r))
    (hr : EndsRun r) (f : Token × List Char → Except SyntaxError β) (g : ν → Option β)
    (hf : ∀ tok n, (f (tok, numberChars (Numeral.bytes n))).toOption = g n) :
    Yields (andThen (s.expect .number TokenKind.number?) f) (t.number?.bind g)
      (s.goTo r s.depth) := by
  apply andThen_expect_tree t h hr
  · intro tok a ha
    cases t with
    | number n =>
      cases ha
      exact ⟨rfl, hf tok n⟩
    | _ => cases ha
  · intro ha
    cases t with
    | number n => cases ha
    | _ => rfl

theorem string_tree (t : Tree ν σ) (h : s.Ahead (t.bytes ++ r)) (hr : EndsRun r) :
    Yields s.string (t.string?.bind (Quotation.text? s.options.decodeEscapes))
      (s.goTo r s.depth) := by
  apply andThen_expect_string t h hr
  intro tok q
  rw [toOption_text?, Quotation.text?_eq]

theorem bytes_tree (t : Tree ν σ) (h : s.Ahead (t.bytes ++ r)) (hr : EndsRun r) :
    Yields s.bytes (t.string?.bind (Quotation.bytes? s.options.decodeBase64))
      (s.goTo r s.depth) := by
  apply andThen_expect_string t h hr
  intro tok q
  unfold Quotation.bytes?
  dsimp only
  split
  · cases Base64.decode? (Quotation.raw q) <;> rfl
  · rfl

/-- A key is what the text between the quotes is parsed as. -/
theorem toOption_mapKey (tok : Token) (options : ReadOptions) (kind : KeyKind) (q : σ) :
    (Except.bind (tok.text? options (Quotation.raw q) ((Quotation.raw q).contains (ascii '\\')))
      fun text =>
        match MapKey.parse? kind text with
        | some key => .ok key
        | none => .error (tok.error (.invalidMapKey kind))).toOption
      = Quotation.key? options.decodeEscapes kind q := by
  rw [Quotation.key?, Quotation.text?_eq, ← toOption_text? tok]
  cases tok.text? options (Quotation.raw q) _ with
  | error e => rfl
  | ok text => cases hk : MapKey.parse? kind text <;> simp [Except.bind, hk, Except.toOption]

theorem mapKey_tree (kind : KeyKind) (t : Tree ν σ) (h : s.Ahead (t.bytes ++ r))
    (hr : EndsRun r) :
    Yields (s.mapKey kind) (t.string?.bind (Quotation.key? s.options.decodeEscapes kind))
      (s.goTo r s.depth) := by
  apply andThen_expect_string t h hr
  intro tok q
  exact toOption_mapKey tok s.options kind q

/-- An item does not close the loop. -/
theorem AtLoop.item {first : Bool} {before : Blanks} {v : Tree ν σ}
    (h : s.AtLoop first (leadingComma first ++ (before.bytes ++ (v.bytes ++ r)))) :
    s.atSymbol (ascii ']') = false ∧ s.peek?.isSome = true := by
  obtain ⟨b, x, hb, hs⟩ := v.exists_bytes_eq_cons
  rw [hb, List.cons_append] at h
  exact h.not_atSymbol hs (.inr rfl)

/-- A member does not close the loop, and its key is read where it stands: as the name of a field,
or as the key of a map. -/
theorem AtLoop.key {first : Bool} {before afterKey : Blanks} {key : σ}
    (h : s.AtLoop first (leadingComma first ++ (before.bytes ++
      (Quotation.bytes key ++ (afterKey.bytes ++ ascii ':' :: r))))) :
    s.atSymbol (ascii '}') = false ∧
      Yields s.string (Quotation.text? s.options.decodeEscapes key)
        (s.goTo (afterKey.bytes ++ ascii ':' :: r) s.depth) ∧
      ∀ kind, Yields (s.mapKey kind) (Quotation.key? s.options.decodeEscapes kind key)
        (s.goTo (afterKey.bytes ++ ascii ':' :: r) s.depth) := by
  have hends : EndsRun (afterKey.bytes ++ ascii ':' :: r) :=
    EndsRun.blanks afterKey (EndsRun.cons (by decide) _)
  have hstring := string_tree (.string key : Tree NumberToken σ) h.ahead hends
  have hmapKey := fun kind => mapKey_tree kind (.string key : Tree NumberToken σ) h.ahead hends
  rw [Quotation.bytes, List.cons_append] at h
  exact ⟨(h.not_atSymbol (by decide) (.inl rfl)).1, hstring, hmapKey⟩

theorem integer_tree (kind : IntegerKind) (t : Tree ν σ) (h : s.Ahead (t.bytes ++ r))
    (hr : EndsRun r) :
    Yields (s.integer kind) (t.number?.bind (Numeral.integer? kind)) (s.goTo r s.depth) := by
  apply andThen_expect_number t h hr
  intro tok n
  rw [Numeral.integer?_eq]
  dsimp only [Token.integer?]
  cases kind.parse? (numberChars (Numeral.bytes n)) <;> rfl

theorem binary_tree (fmt : BinaryFormat) (t : Tree ν σ) (h : s.Ahead (t.bytes ++ r))
    (hr : EndsRun r) :
    Yields (s.binary fmt) (t.number?.bind (Numeral.binary? fmt)) (s.goTo r s.depth) := by
  apply andThen_expect_number t h hr
  intro tok n
  rw [Numeral.binary?_eq]
  dsimp only [Token.binary?]
  cases Binary.parse? fmt (numberChars (Numeral.bytes n)) <;> rfl

theorem enumReference_tree (t : Tree ν σ) (h : s.Ahead (t.bytes ++ r)) (hr : EndsRun r) :
    Yields s.enumReference (t.enumReference? s.options.decodeEscapes) (s.goTo r s.depth) := by
  apply andThen_expect_tree t h hr
  · intro tok a ha
    cases t with
    | string q =>
      cases ha
      refine ⟨rfl, ?_⟩
      rw [Tree.enumReference?, Quotation.text?_eq, ← toOption_text? tok]
      dsimp only
      cases tok.text? s.options (Quotation.raw q) _ <;> rfl
    | number n =>
      cases ha
      refine ⟨rfl, ?_⟩
      rw [Tree.enumReference?, Numeral.integer?_eq]
      dsimp only [Token.integer?]
      cases IntegerKind.int32.parse? (numberChars (Numeral.bytes n)) <;> rfl
    | _ => cases ha
  · intro ha
    cases t with
    | string q => cases ha
    | number n => cases ha
    | _ => rfl

theorem enumeration_tree (e : EnumType) (t : Tree ν σ) (h : s.Ahead (t.bytes ++ r))
    (hr : EndsRun r) :
    Yields (s.enumeration e) ((t.enumReference? s.options.decodeEscapes).bind (resolve? e))
      (s.goTo r s.depth) := by
  have hy := enumReference_tree t h hr
  unfold enumeration
  cases ho : t.enumReference? s.options.decodeEscapes with
  | none =>
    rw [ho] at hy
    obtain ⟨err, s', hs⟩ := hy
    rw [hs]
    exact ⟨_, _, rfl⟩
  | some ref =>
    rw [ho] at hy
    rw [show s.enumReference = (.ok ref, s.goTo r s.depth) from hy]
    cases ref with
    | name name =>
      dsimp only [Option.bind_some, resolve?]
      cases e.ofName? name with
      | none => exact ⟨_, _, rfl⟩
      | some v => rfl
    | number n =>
      dsimp only [Option.bind_some, resolve?]
      cases e.ofNumber? n with
      | none => exact ⟨_, _, rfl⟩
      | some v => rfl

/-! ## Opening brackets -/

/-- An opening bracket is taken while containers may be opened. -/
theorem symbol_open {b : UInt8} (hb : b = ascii '{' ∨ b = ascii '[') (t : Tree ν σ)
    (ht : t.head = .symbol b) (h : s.Ahead (t.bytes ++ r)) :
    Yields (s.symbol b) (if s.depth < maxDepth then some () else none)
      (s.goTo (t.tail ++ r) (s.depth + 1)) := by
  obtain ⟨tok, hk, hnext⟩ := nextToken_tree t h fun n hn => by rw [hn] at ht; cases ht
  have hexp : s.expect (.symbol b) (fun k => if k = .symbol b then some () else none)
      = (.ok (tok, ()), s.goTo (t.tail ++ r) s.depth) := by
    rw [expect, hnext]
    simp only [hk, ht, if_true]
  rw [symbol, hexp]
  dsimp only
  rw [if_pos hb, enter]
  by_cases hd : s.depth < maxDepth
  · rw [if_pos hd, if_pos (show (s.goTo _ s.depth).depth < maxDepth from hd)]
    rfl
  · rw [if_neg hd, if_neg (show ¬ (s.goTo _ s.depth).depth < maxDepth from hd)]
    exact ⟨_, _, rfl⟩

/-- No other value passes for a bracket. -/
theorem symbol_other {b : UInt8} (t : Tree ν σ) (ht : t.head ≠ .symbol b)
    (h : s.Ahead (t.bytes ++ r)) (hr : EndsRun r) :
    ∃ e s', s.symbol b = (.error e, s') := by
  obtain ⟨tok, hk, hnext⟩ := nextToken_tree t h fun _ _ => hr
  rw [symbol, expect, hnext]
  simp only [hk, if_neg ht]
  exact ⟨_, _, rfl⟩

/-- Only a value that begins with a bracket is opened by it. -/
theorem symbol_tree {b : UInt8} {s' : Reader} (hb : b = ascii '{' ∨ b = ascii '[') (t : Tree ν σ)
    (h : s.Ahead (t.bytes ++ r)) (hr : EndsRun r) (hs : s.symbol b = (.ok (), s')) :
    t.head = .symbol b ∧ s' = s.goTo (t.tail ++ r) (s.depth + 1) := by
  have hhead : t.head = .symbol b := by
    by_contra hne
    obtain ⟨e, s'', he⟩ := symbol_other t hne h hr
    cases hs.symm.trans he
  exact ⟨hhead, ((symbol_open hb t hhead h).of_ok hs).2⟩

end Reader

end ProtoJson
