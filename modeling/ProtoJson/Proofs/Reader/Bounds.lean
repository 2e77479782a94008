import ProtoJson.Proofs.Reader.Resync

/-!
# Where a reader stands in its input

Whatever is read, and whether the read succeeds or not, the cursor moves forward within the input, a
token that is kept lies in front of the cursor, no more containers are open than may be, and an
error stands at or before the cursor. A value of any shape leaves as many containers open as it has
found.
-/

namespace ProtoJson

/-- The token is the one that `input` has at its offset, and it ends at or before `stop`. -/
structure Token.Spans (t : Token) (input : List UInt8) (stop : Nat) : Prop where
  source : t.source = input.drop t.offset
  ends : ∃ n, TokenKind.scan t.source = .ok (t.kind, n) ∧ t.offset + n ≤ stop

theorem Token.Spans.offset_le {t : Token} {input : List UInt8} {stop : Nat}
    (h : t.Spans input stop) : t.offset ≤ stop := by
  obtain ⟨n, -, hn⟩ := h.ends
  omega

theorem Token.Spans.mono {t : Token} {input : List UInt8} {stop stop' : Nat}
    (h : t.Spans input stop) (hle : stop ≤ stop') : t.Spans input stop' := by
  obtain ⟨n, hscan, hn⟩ := h.ends
  exact ⟨h.source, n, hscan, by omega⟩

/-- A token is no longer than the text that it is scanned from. -/
theorem TokenKind.length_scan_le {text : List UInt8} {k : TokenKind} {n : Nat}
    (h : scan text = .ok (k, n)) : n ≤ text.length := by
  obtain ⟨x, rest, rfl, rfl, -⟩ := spells_of_scan h
  simp

namespace Reader

/-! ## Reads that follow one another -/

/-- Goes on where a read has succeeded. -/
def chain {α β : Type} (r : Except SyntaxError α × Reader)
    (k : α → Reader → Except SyntaxError β × Reader) : Except SyntaxError β × Reader :=
  match r with
  | (.error e, s) => (.error e, s)
  | (.ok a, s) => k a s

theorem expect_eq_chain {α : Type} (s : Reader) (c : TokenClass) (accept : TokenKind → Option α) :
    s.expect c accept = chain s.nextToken fun t s₁ =>
      match accept t.kind with
      | some a => (.ok (t, a), s₁)
      | none =>
        (.error (t.error (.unexpectedToken c t.kind.tokenClass)), { s₁ with token := some t }) := by
  rw [expect]
  rcases s.nextToken with ⟨e | t, s₁⟩ <;> rfl

theorem andThen_eq_chain {α β : Type} (r : Except SyntaxError α × Reader)
    (f : α → Except SyntaxError β) : andThen r f = chain r fun a s₁ => (f a, s₁) := by
  obtain ⟨e | a, s₁⟩ := r <;> rfl

theorem symbol_eq_chain (s : Reader) (b : UInt8) :
    s.symbol b = chain (s.expect (.symbol b) fun k => if k = .symbol b then some () else none)
      fun r s₁ =>
        if b = ascii '{' ∨ b = ascii '[' then s₁.enter r.1
        else if b = ascii '}' ∨ b = ascii ']' then (.ok (), { s₁ with depth := s₁.depth - 1 })
        else (.ok (), s₁) := by
  rw [symbol]
  rcases s.expect (.symbol b) (fun k => if k = .symbol b then some () else none) with
    ⟨e | ⟨t, u⟩, s₁⟩ <;> rfl

/-- A value is a container that is opened by the next token, or that token. -/
theorem attempt_eq_chain (s : Reader) : s.attempt = chain s.nextToken fun t s₁ =>
    if t.kind = .symbol (ascii '{') then
      chain (s₁.enter t) fun _ s₂ => chain (s₂.members []) fun ms s₃ => (.ok (.object ms), s₃)
    else if t.kind = .symbol (ascii '[') then
      chain (s₁.enter t) fun _ s₂ => chain (s₂.items []) fun vs s₃ => (.ok (.array vs), s₃)
    else (tokenValue s₁ t, s₁) := by
  rw [attempt]
  rcases s.nextToken with ⟨e | t, s₁⟩
  · rfl
  · dsimp only [chain]
    congr 1
    · rcases s₁.enter t with ⟨e | u, s₂⟩
      · rfl
      · dsimp only
        rcases s₂.members [] with ⟨e | ms, s₃⟩ <;> rfl
    · congr 1
      rcases s₁.enter t with ⟨e | u, s₂⟩
      · rfl
      · dsimp only
        rcases s₂.items [] with ⟨e | vs, s₃⟩ <;> rfl

theorem members_eq_chain (s : Reader) (ms : List (String × Value)) : s.members ms =
    if s.atSymbol (ascii '}') then s.close (ascii '}') ms
    else chain s.string fun key s₁ =>
      s₁.colon.value.2.comma.members (Value.insertMember key s₁.colon.value.1 ms) := by
  rw [members_eq]
  rcases s.string with ⟨e | key, s₁⟩ <;> rfl

/-! ## Readers of an input -/

/-- The reader is one of `input`: its cursor stands within it, and so does the token that it
keeps. -/
structure Within (input : List UInt8) (s : Reader) : Prop where
  offset_le : s.offset ≤ input.length
  rest : s.rest = input.drop s.offset
  depth_le : s.depth ≤ maxDepth
  token : ∀ t, s.token = some t → t.Spans input s.offset

/-- From `s` to `s'` the cursor moves forward within the input. -/
structure Proceeds (input : List UInt8) (s s' : Reader) : Prop where
  offset_le : s.offset ≤ s'.offset
  within : s'.Within input

/-- From `s` to `s'` the cursor moves forward within the input. At `s'` no token is kept and `d`
containers are open. -/
structure Arrives (input : List UInt8) (s : Reader) (d : Nat) (s' : Reader) : Prop
    extends Proceeds input s s' where
  token : s'.token = none
  depth : s'.depth = d

/-- A read moves the cursor forward. If it succeeds, no token is kept and `d` containers are
open. -/
structure Moves (input : List UInt8) (s : Reader) (d : Nat) {α : Type}
    (r : Except SyntaxError α × Reader) : Prop where
  proceeds : Proceeds input s r.2
  leaves : ∀ a, r.1 = .ok a → r.2.token = none ∧ r.2.depth = d

/-- The error of a read stands at or before the cursor. -/
structure Reads (input : List UInt8) (s : Reader) (d : Nat) {α : Type}
    (r : Except SyntaxError α × Reader) : Prop extends Moves input s d r where
  located : ∀ e, r.1 = .error e → e.offset ≤ r.2.offset

variable {input : List UInt8} {s s' s₁ s₂ : Reader} {d : Nat}

theorem within_ofBytes (input : List UInt8) (options : ReadOptions) :
    (ofBytes input options).Within input :=
  ⟨Nat.zero_le _, rfl, Nat.zero_le _, fun _ h => by cases h⟩

theorem Proceeds.trans (h : Proceeds input s s₁) (h' : Proceeds input s₁ s₂) :
    Proceeds input s s₂ :=
  ⟨le_trans h.offset_le h'.offset_le, h'.within⟩

section

variable {α : Type} {r : Except SyntaxError α × Reader} {e : SyntaxError} {a : α}

theorem Moves.arrives (h : Moves input s d r) (hr : r = (.ok a, s')) : Arrives input s d s' := by
  subst hr
  obtain ⟨htoken, hdepth⟩ := h.leaves a rfl
  exact ⟨h.proceeds, htoken, hdepth⟩

theorem Moves.after (h : Proceeds input s s₁) (hr : Moves input s₁ d r) :
    Moves input s d r := ⟨h.trans hr.proceeds, hr.leaves⟩

theorem Moves.error (h : Proceeds input s s') :
    Moves input s d ((.error e, s') : Except SyntaxError α × Reader) := by
  refine ⟨h, fun a ha => ?_⟩
  cases ha

theorem Moves.ok (h : Proceeds input s s') (ht : s'.token = none) (hd : s'.depth = d) :
    Moves input s d ((.ok a, s') : Except SyntaxError α × Reader) := ⟨h, fun _ _ => ⟨ht, hd⟩⟩

/-- What follows a read starts where the read has left off. -/
theorem Moves.chain {β : Type} {d' : Nat} {k : α → Reader → Except SyntaxError β × Reader}
    (h : Moves input s d r)
    (hk : ∀ a s₁, r = (.ok a, s₁) → s₁.Within input → s₁.token = none → s₁.depth = d →
      Moves input s₁ d' (k a s₁)) :
    Moves input s d' (chain r k) := by
  obtain ⟨e | a, s₁⟩ := r
  · exact .error h.proceeds
  · obtain ⟨htoken, hdepth⟩ : s₁.token = none ∧ s₁.depth = d := h.leaves a rfl
    exact .after h.proceeds (hk a s₁ rfl h.proceeds.within htoken hdepth)

theorem Reads.after (h : Proceeds input s s₁) (hr : Reads input s₁ d r) :
    Reads input s d r := ⟨hr.toMoves.after h, hr.located⟩

theorem Reads.error (h : Proceeds input s s') (he : e.offset ≤ s'.offset) :
    Reads input s d ((.error e, s') : Except SyntaxError α × Reader) := by
  refine ⟨.error h, fun e' he' => ?_⟩
  cases he'
  exact he

theorem Reads.ok (h : Proceeds input s s') (ht : s'.token = none) (hd : s'.depth = d) :
    Reads input s d ((.ok a, s') : Except SyntaxError α × Reader) := by
  refine ⟨.ok h ht hd, fun e he => ?_⟩
  cases he

theorem Reads.chain {β : Type} {d' : Nat} {k : α → Reader → Except SyntaxError β × Reader}
    (h : Reads input s d r)
    (hk : ∀ a s₁, r = (.ok a, s₁) → s₁.Within input → s₁.token = none → s₁.depth = d →
      Reads input s₁ d' (k a s₁)) :
    Reads input s d' (chain r k) := by
  obtain ⟨e | a, s₁⟩ := r
  · exact .error h.proceeds (h.located e rfl)
  · obtain ⟨htoken, hdepth⟩ : s₁.token = none ∧ s₁.depth = d := h.leaves a rfl
    exact .after h.proceeds (hk a s₁ rfl h.proceeds.within htoken hdepth)

end

namespace Within

theorem length_rest (h : s.Within input) : s.rest.length = input.length - s.offset := by
  rw [h.rest, List.length_drop]

/-- A reader with the same cursor is one of the same input. -/
theorem proceeds (h : s.Within input) (hoffset : s'.offset = s.offset) (hrest : s'.rest = s.rest)
    (hdepth : s'.depth ≤ maxDepth) (htoken : ∀ t, s'.token = some t → t.Spans input s.offset) :
    Proceeds input s s' where
  offset_le := le_of_eq hoffset.symm
  within := ⟨hoffset ▸ h.offset_le, by rw [hrest, hoffset, h.rest], hdepth, hoffset ▸ htoken⟩

theorem refl (h : s.Within input) : Proceeds input s s := ⟨le_refl _, h⟩

/-- An announcement moves nothing. -/
theorem separate (h : s.Within input) (separator : UInt8) :
    Proceeds input s (s.separate separator) := h.proceeds rfl rfl h.depth_le h.token

theorem advance (h : s.Within input) {n : Nat} (hn : n ≤ s.rest.length) :
    Proceeds input s (s.advance n) := by
  have hle := h.offset_le
  rw [h.length_rest] at hn
  refine ⟨Nat.le_add_right _ _, ?_, ?_, h.depth_le, fun t ht => ?_⟩
  · show s.offset + n ≤ input.length
    omega
  · show s.rest.drop n = input.drop (s.offset + n)
    rw [h.rest, List.drop_drop]
  · exact (h.token t ht).mono (Nat.le_add_right _ _)

theorem skipBlanks (h : s.Within input) : Proceeds input s s.skipBlanks :=
  h.advance (List.takeWhile_prefix isBlank).length_le

end Within

/-! ## Tokens -/

/-- A scan gives a token that ends at or before the cursor. It opens and closes nothing, and leaves
a token that is kept. -/
structure Scans (input : List UInt8) (s : Reader) (r : Except SyntaxError Token × Reader) :
    Prop where
  proceeds : Proceeds input s r.2
  located : ∀ e, r.1 = .error e → e.offset ≤ r.2.offset
  spans : ∀ t, r.1 = .ok t → t.Spans input r.2.offset
  token : r.2.token = s.token
  depth : r.2.depth = s.depth

theorem Scans.after {r : Except SyntaxError Token × Reader} (h : Proceeds input s s₁)
    (htoken : s₁.token = s.token) (hdepth : s₁.depth = s.depth) (hr : Scans input s₁ r) :
    Scans input s r :=
  ⟨h.trans hr.proceeds, hr.located, hr.spans, hr.token.trans htoken, hr.depth.trans hdepth⟩

/-- A scan may fail where the cursor stands. -/
theorem Within.scans_error (h : s.Within input) (fault : Fault) :
    Scans input s (.error (s.error fault), s) where
  proceeds := h.refl
  located e he := by
    cases he
    exact le_refl _
  spans t ht := by cases ht
  token := rfl
  depth := rfl

theorem Within.scanToken (h : s.Within input) : Scans input s s.scanToken := by
  unfold Reader.scanToken
  split
  · next k n hscan =>
    have hadv := h.advance (TokenKind.length_scan_le hscan)
    refine ⟨hadv, fun e he => ?_, fun t ht => ?_, rfl, rfl⟩
    · cases he
    · cases ht
      exact ⟨h.rest, n, hscan, le_refl _⟩
  · exact h.scans_error _

theorem Within.scanUnseparated (h : s.Within input) : Scans input s s.scanUnseparated := by
  have hskip := h.skipBlanks
  apply Scans.after hskip rfl rfl
  unfold Reader.scanUnseparated
  dsimp only
  split
  · exact hskip.within.scans_error _
  · split
    · exact hskip.within.scans_error _
    · exact hskip.within.scanToken

theorem Within.scan (h : s.Within input) : Scans input s s.scan := by
  have hskip := h.skipBlanks
  cases scanned s with
  | unannounced _ heq => exact heq ▸ h.scanUnseparated
  | separated _ _ hr heq =>
    -- The separator is passed, and then the token is scanned.
    have hadv := hskip.within.advance (n := 1) (by rw [hr]; simp)
    have hone : Proceeds input s { s.skipBlanks.advance 1 with pending := none } :=
      hskip.trans ⟨hadv.offset_le, hadv.within.offset_le, hadv.within.rest,
        hadv.within.depth_le, hadv.within.token⟩
    exact heq ▸ .after hone rfl rfl hone.within.scanUnseparated
  | closed _ _ _ heq =>
    have hsame : Proceeds input s { s.skipBlanks with pending := none } :=
      hskip.trans (hskip.within.proceeds rfl rfl h.depth_le hskip.within.token)
    exact heq ▸ .after hsame rfl rfl hsame.within.scanToken
  | missing _ _ _ heq => exact heq ▸ .after hskip rfl rfl (hskip.within.scans_error _)

/-- The next token is the one that is kept, or is scanned. -/
theorem Within.nextToken (h : s.Within input) :
    Reads input s s.depth s.nextToken ∧
      ∀ t, s.nextToken.1 = .ok t → t.Spans input s.nextToken.2.offset := by
  unfold Reader.nextToken
  split
  · next t ht =>
    refine ⟨.ok (h.proceeds rfl rfl h.depth_le fun _ ht' => by cases ht') rfl rfl, fun t' ht' => ?_⟩
    cases ht'
    exact h.token t ht
  · next ht =>
    have hscan := h.scan
    exact ⟨⟨⟨hscan.proceeds, fun _ _ => ⟨hscan.token.trans ht, hscan.depth⟩⟩, hscan.located⟩,
      hscan.spans⟩

/-- A token that is taken lies in front of the cursor, and so does one that is kept. -/
theorem Within.expect {α : Type} (h : s.Within input) (c : TokenClass)
    (accept : TokenKind → Option α) :
    Reads input s s.depth (s.expect c accept) ∧
      ∀ t a s₁, s.expect c accept = (.ok (t, a), s₁) → t.Spans input s₁.offset := by
  obtain ⟨hnext, hspans⟩ := h.nextToken
  rw [expect_eq_chain]
  refine ⟨hnext.chain fun t s₁ hres hwithin htoken hdepth => ?_, fun t a s₁ hres => ?_⟩
  · have ht : t.Spans input s₁.offset := by
      rw [hres] at hspans
      exact hspans t rfl
    split
    · exact .ok hwithin.refl htoken hdepth
    · refine .error (hwithin.proceeds rfl rfl hwithin.depth_le fun t' ht' => ?_) ht.offset_le
      cases ht'
      exact ht
  · rcases hnext' : s.nextToken with ⟨e | t', s₂⟩ <;> rw [hnext'] at hspans hres
    · cases hres
    · dsimp only [Reader.chain] at hres
      cases ha : accept t'.kind with
      | none =>
        rw [ha] at hres
        cases hres
      | some a' =>
        rw [ha] at hres
        cases hres
        exact hspans t rfl

/-! ## Reads of single tokens -/

/-- What is made of a token fails at the token. -/
theorem Within.andThen_expect {α β : Type} (h : s.Within input) {c : TokenClass}
    {accept : TokenKind → Option α} {f : Token × α → Except SyntaxError β}
    (hf : ∀ t a e, f (t, a) = .error e → e.offset = t.offset) :
    Reads input s s.depth (andThen (s.expect c accept) f) := by
  obtain ⟨hreads, hspans⟩ := h.expect c accept
  rw [andThen_eq_chain]
  apply hreads.chain
  rintro ⟨t, a⟩ s₁ hres hwithin htoken hdepth
  have ht : t.Spans input s₁.offset := hspans t a s₁ hres
  cases hb : f (t, a) with
  | error e => exact .error hwithin.refl (hf t a e hb ▸ ht.offset_le)
  | ok b => exact .ok hwithin.refl htoken hdepth

theorem offset_of_text? {t : Token} {options : ReadOptions} {raw : List UInt8} {escaped : Bool}
    {e : SyntaxError} (h : t.text? options raw escaped = .error e) : e.offset = t.offset := by
  unfold Token.text? at h
  split at h
  · cases h
    rfl
  · split at h
    · split at h
      · cases h
      · cases h
        rfl
    · cases h

theorem offset_of_integer? {t : Token} {kind : IntegerKind} {text : List Char} {e : SyntaxError}
    (h : t.integer? kind text = .error e) : e.offset = t.offset := by
  unfold Token.integer? at h
  split at h
  · cases h
  · cases h
    rfl

theorem offset_of_binary? {t : Token} {fmt : BinaryFormat} {text : List Char} {e : SyntaxError}
    (h : t.binary? fmt text = .error e) : e.offset = t.offset := by
  unfold Token.binary? at h
  split at h
  · cases h
  · cases h
    rfl

namespace Within

theorem null (h : s.Within input) : Reads input s s.depth s.null :=
  h.andThen_expect fun _ _ _ he => by cases he

theorem bool (h : s.Within input) : Reads input s s.depth s.bool :=
  h.andThen_expect fun _ _ _ he => by cases he

theorem string (h : s.Within input) : Reads input s s.depth s.string :=
  h.andThen_expect fun _ _ _ he => offset_of_text? he

theorem bytes (h : s.Within input) : Reads input s s.depth s.bytes := by
  apply h.andThen_expect
  intro t a e he
  dsimp only at he
  split at he
  · split at he
    · cases he
    · cases he
      rfl
  · cases he

theorem integer (h : s.Within input) (kind : IntegerKind) :
    Reads input s s.depth (s.integer kind) :=
  h.andThen_expect fun _ _ _ he => offset_of_integer? he

theorem binary (h : s.Within input) (fmt : BinaryFormat) :
    Reads input s s.depth (s.binary fmt) :=
  h.andThen_expect fun _ _ _ he => offset_of_binary? he

theorem enumReference (h : s.Within input) : Reads input s s.depth s.enumReference := by
  apply h.andThen_expect
  intro t a e he
  rcases a with ⟨raw, escaped⟩ | text <;> dsimp only at he
  · cases htext : t.text? s.options raw escaped with
    | error e' =>
      rw [htext] at he
      cases he
      exact offset_of_text? htext
    | ok name =>
      rw [htext] at he
      cases he
  · cases hn : t.integer? .int32 text with
    | error e' =>
      rw [hn] at he
      cases he
      exact offset_of_integer? hn
    | ok n =>
      rw [hn] at he
      cases he

theorem mapKey (h : s.Within input) (kind : KeyKind) :
    Reads input s s.depth (s.mapKey kind) := by
  apply h.andThen_expect
  intro t a e he
  dsimp only at he
  cases htext : t.text? s.options a.1 a.2 with
  | error e' =>
    rw [htext] at he
    cases he
    exact offset_of_text? htext
  | ok text =>
    rw [htext] at he
    simp only [Except.bind] at he
    split at he
    · cases he
    · cases he
      rfl

/-! ## Brackets -/

/-- A container is opened if it may be, and an error stands at its bracket. -/
theorem enter (h : s.Within input) (hnone : s.token = none) {t : Token} (ht : t.offset ≤ s.offset) :
    Reads input s (s.depth + 1) (s.enter t) := by
  unfold Reader.enter
  split
  · next hd => exact .ok (h.proceeds rfl rfl hd h.token) hnone rfl
  · exact .error h.refl ht

end Within

/-- The containers that are open after a symbol, where `depth` were open before. -/
def depthAfter (b : UInt8) (depth : Nat) : Nat :=
  if b = ascii '{' ∨ b = ascii '[' then depth + 1
  else if b = ascii '}' ∨ b = ascii ']' then depth - 1
  else depth

theorem depthAfter_opener {b : UInt8} (hb : b = ascii '{' ∨ b = ascii '[') (depth : Nat) :
    depthAfter b depth = depth + 1 := if_pos hb

theorem depthAfter_closer {b : UInt8} (hb : IsCloser b) (depth : Nat) :
    depthAfter b depth = depth - 1 := by
  rcases hb with rfl | rfl <;> rfl

theorem Within.symbol (h : s.Within input) (b : UInt8) :
    Reads input s (depthAfter b s.depth) (s.symbol b) := by
  obtain ⟨hreads, hspans⟩ :=
    h.expect (.symbol b) fun k => if k = .symbol b then some () else none
  rw [symbol_eq_chain]
  apply hreads.chain
  rintro ⟨t, u⟩ s₁ hres hwithin htoken hdepth
  have ht : t.offset ≤ s₁.offset := (hspans t u s₁ hres).offset_le
  unfold depthAfter
  rw [← hdepth]
  split
  · exact hwithin.enter htoken ht
  · split
    · refine .ok (hwithin.proceeds rfl rfl ?_ hwithin.token) htoken rfl
      exact le_trans (Nat.sub_le _ _) hwithin.depth_le
    · exact .ok hwithin.refl htoken rfl

theorem Within.close {α : Type} (h : s.Within input) {bracket : UInt8} (hb : IsCloser bracket)
    (content : α) : Reads input s (s.depth - 1) (s.close bracket content) := by
  have hcomma : Proceeds input s s.comma := h.separate _
  have hsymbol := hcomma.within.symbol bracket
  rw [depthAfter_closer hb, depth_comma] at hsymbol
  rw [Reader.close, andThen_eq_chain]
  apply Reads.after hcomma
  apply hsymbol.chain
  intro _ s₁ _ hwithin htoken hdepth
  exact .ok hwithin.refl htoken hdepth

/-- A separator is announced after a read. -/
theorem Arrives.separate (h : Arrives input s d s') (separator : UInt8) :
    (s'.separate separator).Within input := (h.within.separate separator).within

/-! ## Values of any shape -/

/-- Recovery stops within the input. -/
theorem Proceeds.recoverFrom (h : Proceeds input s s') (hs : s.Within input) :
    Proceeds input s (s'.recoverFrom s) := by
  have hle : itemLength 0 (s'.openSince s) .outside s'.rest ≤ s'.rest.length := by
    simpa using itemLength_le 0 (s'.openSince s) .outside s'.rest
  have hadv := h.within.advance hle
  exact ⟨le_trans h.offset_le hadv.offset_le, hadv.within.offset_le, hadv.within.rest,
    hs.depth_le, fun t ht => by cases ht⟩

/-- What opens a container closes it. -/
theorem Moves.container {α : Type} {t : Token} {body : Reader → Except SyntaxError α × Reader}
    {f : α → Value} (h : s.Within input) (hnone : s.token = none) (ht : t.offset ≤ s.offset)
    (hbody : ∀ s₁, s.enter t = (.ok (), s₁) → s₁.Within input →
      Moves input s₁ (s₁.depth - 1) (body s₁)) :
    Moves input s s.depth
      (Reader.chain (s.enter t) fun _ s₁ =>
        Reader.chain (body s₁) fun a s₂ => (.ok (f a), s₂)) := by
  apply (h.enter hnone ht).toMoves.chain
  intro u s₁ hentered hwithin _ hdepth
  have hmoves := hbody s₁ hentered hwithin
  rw [hdepth, Nat.add_sub_cancel] at hmoves
  apply hmoves.chain
  intro a s₂ _ hwithin₂ htoken₂ hdepth₂
  exact .ok hwithin₂.refl htoken₂ hdepth₂

/-- An attempt at a value, where the reads within the value are in order. -/
theorem Moves.attempt (h : s.Within input)
    (hin : ∀ t s₁ s₂, s.nextToken = (.ok t, s₁) → s₁.enter t = (.ok (), s₂) →
      (s₂.Within input → Moves input s₂ (s₂.depth - 1) (s₂.members [])) ∧
        (s₂.Within input → Moves input s₂ (s₂.depth - 1) (s₂.items []))) :
    Moves input s s.depth s.attempt := by
  obtain ⟨hnext, hspans⟩ := h.nextToken
  rw [attempt_eq_chain]
  apply hnext.toMoves.chain
  intro t s₁ hres hwithin htoken hdepth
  rw [hres] at hspans
  have ht : t.offset ≤ s₁.offset := (hspans t rfl).offset_le
  rw [← hdepth]
  split
  · exact .container hwithin htoken ht fun s₂ henter => (hin t s₁ s₂ hres henter).1
  · split
    · exact .container hwithin htoken ht fun s₂ henter => (hin t s₁ s₂ hres henter).2
    · cases s₁.tokenValue t with
      | error e => exact .error hwithin.refl
      | ok v => exact .ok hwithin.refl htoken rfl

theorem passesOn_moves (input : List UInt8) : PassesOn
    (fun s => s.Within input → Arrives input s s.depth s.value.2)
    (fun s ms => s.Within input → Moves input s (s.depth - 1) (s.members ms))
    (fun s vs => s.Within input → Moves input s (s.depth - 1) (s.items vs)) where
  value s hin hs := by
    have hmoves := Moves.attempt hs hin
    rw [value_eq_attempt]
    rcases hres : s.attempt with ⟨e | v, s₁⟩ <;> rw [hres] at hmoves
    · exact ⟨hmoves.proceeds.recoverFrom hs, rfl, rfl⟩
    · exact hmoves.arrives rfl
  members s ms hin hs := by
    rw [members_eq_chain]
    split
    · exact (hs.close (.inl rfl) ms).toMoves
    · apply hs.string.toMoves.chain
      intro key s₁ hkey hwithin _ hdepth
      obtain ⟨hvalue, hmembers⟩ := hin key s₁ hkey
      have hcolon : Proceeds input s₁ s₁.colon := hwithin.separate _
      have hskips := hvalue hcolon.within
      have hcomma : Proceeds input s₁ s₁.colon.value.2.comma :=
        (hcolon.trans hskips.toProceeds).trans (hskips.within.separate _)
      have hrest := hmembers (Value.insertMember key s₁.colon.value.1 ms) hcomma.within
      rw [depth_comma, hskips.depth, depth_colon, hdepth] at hrest
      exact .after hcomma hrest
  items s vs hin hs := by
    rw [items_eq]
    split
    · exact (hs.close (.inr rfl) vs.reverse).toMoves
    · split
      · next hpeek =>
        obtain ⟨hvalue, hitems⟩ := hin hpeek
        have hskips := hvalue hs
        have hcomma : Proceeds input s s.value.2.comma :=
          hskips.toProceeds.trans (hskips.within.separate _)
        have hrest := hitems (s.value.1 :: vs) hcomma.within
        rw [depth_comma, hskips.depth] at hrest
        exact .after hcomma hrest
      · exact .error hs.refl

namespace Within

theorem value (h : s.Within input) : Arrives input s s.depth s.value.2 :=
  (passesOn_moves input).value_all s h

theorem members (h : s.Within input) (ms : List (String × Value)) :
    Moves input s (s.depth - 1) (s.members ms) := (passesOn_moves input).members_all s ms h

theorem items (h : s.Within input) (vs : List Value) :
    Moves input s (s.depth - 1) (s.items vs) := (passesOn_moves input).items_all s vs h

end Within

end Reader

end ProtoJson
