import ProtoJson.Proofs.Message.AsRead
import ProtoJson.Proofs.Reader.Bounds
import ProtoJson.Proofs.Reader.EscapedBytes

/-!
# Single tokens and their text

Which bytes of the input a token is, and what reading it as an integer, as bytes or as a map key has
to do with those bytes: an integer is read from digits in range, bytes are read from their base64
form and from nothing else, and what is written for an integer or a key is read as itself.
-/

namespace ProtoJson

open Grammar

/-! ## The bytes of a token -/

namespace Grammar

/-- A string token is spelled between quotes. -/
theorem Spells.string_eq {raw x : List UInt8} {escaped : Bool}
    (h : Spells (.string raw escaped) x) : x = ascii '"' :: (raw ++ [ascii '"']) := by
  generalize hk : TokenKind.string raw escaped = k at h
  cases h with
  | value t ht =>
    cases t with
    | string q =>
      cases hk
      rfl
    | _ => cases hk
  | bracket b hb => cases hk

/-- A number token is spelled as a run of number bytes. -/
theorem Spells.number_isRun {cs : List Char} {x : List UInt8} (h : Spells (.number cs) x) :
    IsNumberRun x ∧ cs = numberChars x := by
  generalize hk : TokenKind.number cs = k at h
  cases h with
  | value t ht =>
    cases t with
    | number n =>
      cases hk
      exact ⟨n.isRun, rfl⟩
    | _ => cases hk
  | bracket b hb => cases hk

/-- A number token has no plus in front. -/
theorem IsNumberRun.head?_numberChars {run : List UInt8} (h : IsNumberRun run) :
    (numberChars run).head? ≠ some '+' := by
  obtain ⟨b, r, rfl, hb⟩ := h.starts
  have hplus : ∀ b, (b = ascii '-' ∨ isDigitByte b = true) → Char.ofNat b.toNat ≠ '+' :=
    forall_byte (by decide +kernel)
  intro h
  exact hplus b hb (Option.some.inj h)

end Grammar

theorem TokenKind.length_number_of_scan {text : List UInt8} {cs : List Char} {n : Nat}
    (h : scan text = .ok (.number cs, n)) : n = (text.takeWhile isNumberByte).length := by
  unfold scan at h
  split at h
  · cases h
  split at h
  · cases h
  split at h
  · split at h <;> cases h
  split at h
  · cases h
    rfl
  split at h
  · cases (of_keyword h).1
  split at h
  · cases (of_keyword h).1
  split at h
  · cases (of_keyword h).1
  · cases h

/-- A number token is all the number bytes at the front of its text. -/
theorem TokenKind.takeWhile_of_scan {cs : List Char} {x r : List UInt8}
    (h : scan (x ++ r) = .ok (.number cs, x.length)) : (x ++ r).takeWhile isNumberByte = x := by
  have htake := List.prefix_iff_eq_take.1 (List.takeWhile_prefix isNumberByte (l := x ++ r))
  rw [htake, ← length_number_of_scan h, List.take_left]

/-! ## The text of an integer -/

/-- The texts of an integer of a kind: digits, or a minus and digits if the kind is signed, whose
value is in range. There may be any number of leading zeros. -/
inductive IntegerKind.Spells (kind : IntegerKind) : List Char → Int → Prop where
  | digits (ds : Digits) (h : kind.Holds (ofDigits ds.chars)) :
    Spells kind ds.chars (ofDigits ds.chars)
  | minus (ds : Digits) (hsigned : kind.signed = true) (h : kind.Holds (-(ofDigits ds.chars))) :
    Spells kind ('-' :: ds.chars) (-(ofDigits ds.chars))

namespace IntegerKind

theorem digits?_eq_some_iff {cs : List Char} {n : Nat} :
    digits? cs = some n ↔ ∃ ds : Digits, ds.chars = cs ∧ ofDigits ds.chars = n := by
  unfold digits?
  rw [ofLongDigits_eq]
  constructor
  · intro h
    split at h
    · next hcs => exact ⟨⟨cs, hcs.1, hcs.2⟩, rfl, Option.some.inj h⟩
    · cases h
  · rintro ⟨ds, rfl, rfl⟩
    rw [if_pos ⟨ds.nonempty, ds.digits⟩]

theorem fit?_eq_some_iff {kind : IntegerKind} {v w : Int} :
    kind.fit? v = some w ↔ kind.Holds v ∧ v = w := by
  unfold fit?
  split <;> simp_all

/-- What is read as an integer, apart from a text with a plus, is the text of one. -/
theorem parse?_eq_some_iff {kind : IntegerKind} {cs : List Char} {v : Int}
    (hplus : cs.head? ≠ some '+') : kind.parse? cs = some v ↔ kind.Spells cs v := by
  constructor
  · intro h
    unfold parse? at h
    split at h
    · exact absurd rfl hplus
    · split at h
      · next hsigned =>
        obtain ⟨n, hn, hv⟩ := Option.bind_eq_some_iff.1 h
        obtain ⟨ds, rfl, rfl⟩ := digits?_eq_some_iff.1 hn
        obtain ⟨hholds, rfl⟩ := fit?_eq_some_iff.1 hv
        exact .minus ds hsigned hholds
      · cases h
    · obtain ⟨n, hn, hv⟩ := Option.bind_eq_some_iff.1 h
      obtain ⟨ds, rfl, rfl⟩ := digits?_eq_some_iff.1 hn
      obtain ⟨hholds, rfl⟩ := fit?_eq_some_iff.1 hv
      exact .digits ds hholds
  · intro h
    cases h with
    | digits ds hholds =>
      obtain ⟨c, r, hc, hd⟩ := ds.exists_cons
      have hparse : kind.parse? ds.chars = (digits? ds.chars).bind fun n => kind.fit? n := by
        rw [hc, kind.parse?_of_isDigit hd]
      rw [hparse, digits?_eq_some_iff.2 ⟨ds, rfl, rfl⟩, Option.bind_some]
      exact fit?_eq_some_iff.2 ⟨hholds, rfl⟩
    | minus ds hsigned hholds =>
      have hparse : kind.parse? ('-' :: ds.chars)
          = if kind.signed then (digits? ds.chars).bind fun n => kind.fit? (-n) else none := rfl
      rw [hparse, if_pos hsigned, digits?_eq_some_iff.2 ⟨ds, rfl, rfl⟩, Option.bind_some]
      exact fit?_eq_some_iff.2 ⟨hholds, rfl⟩

end IntegerKind

/-! ## Taking a token -/

namespace Reader

variable {input : List UInt8} {s s' : Reader} {t : Token}

theorem rest_of_scanToken (h : s.scanToken = (.ok t, s')) :
    ∃ n, TokenKind.scan t.source = .ok (t.kind, n) ∧ s'.rest = t.source.drop n := by
  unfold scanToken at h
  split at h
  · next k n hscan =>
    cases h
    exact ⟨n, hscan, rfl⟩
  · cases h

theorem rest_of_scanUnseparated (h : s.scanUnseparated = (.ok t, s')) :
    ∃ n, TokenKind.scan t.source = .ok (t.kind, n) ∧ s'.rest = t.source.drop n := by
  unfold scanUnseparated at h
  dsimp only at h
  split at h
  · cases h
  · split at h
    · cases h
    · exact rest_of_scanToken h

/-- A scan leaves the cursor after its token. -/
theorem rest_of_scan (h : s.scan = (.ok t, s')) :
    ∃ n, TokenKind.scan t.source = .ok (t.kind, n) ∧ s'.rest = t.source.drop n := by
  unfold scan at h
  split at h
  · exact rest_of_scanUnseparated h
  · dsimp only at h
    split at h
    · cases h
    · split at h
      · split at h
        · exact rest_of_scanUnseparated h
        · cases h
      · split at h
        · exact rest_of_scanToken h
        · cases h

/-- The next token of a reader of `input`, which is spelled as `x` in front of `r`. The reader is at
`r` after it, unless the token had been kept: then the cursor does not move. -/
structure Takes (input : List UInt8) (s : Reader) (t : Token) (x r : List UInt8) (s' : Reader) :
    Prop where
  next : s.nextToken = (.ok t, s')
  source : input.drop t.offset = x ++ r
  scan : TokenKind.scan (x ++ r) = .ok (t.kind, x.length)
  spells : Spells t.kind x
  scanned : s.token = none → s'.rest = r
  kept : s.token = some t → s' = { s with token := none }

/-- Whatever token is taken, the input has it where the token says. -/
theorem Within.takes (h : s.Within input) (hnext : s.nextToken = (.ok t, s')) :
    ∃ x r, Takes input s t x r s' := by
  have hspans := h.nextToken.2 t (congrArg Prod.fst hnext)
  obtain ⟨n, hscan, -⟩ := hspans.ends
  obtain ⟨x, r, hxr, rfl, hspells⟩ := TokenKind.spells_of_scan hscan
  rw [hxr] at hscan
  refine ⟨x, r, hnext, hspans.source ▸ hxr, hscan, hspells, fun ht => ?_, fun ht => ?_⟩
  · rw [Reader.nextToken, ht] at hnext
    obtain ⟨m, hm, hrest⟩ := rest_of_scan hnext
    rw [hxr, hscan] at hm
    cases hm
    rw [hrest, hxr, List.drop_left]
  · rw [Reader.nextToken, ht] at hnext
    exact (congrArg Prod.snd hnext).symm

/-- A read of a token that is accepted gives what `f` makes of it, and leaves the reader after
it. -/
theorem andThen_expect_of_nextToken {α β : Type} {c : TokenClass} {accept : TokenKind → Option α}
    {a : α} (f : Token × α → Except SyntaxError β) (hnext : s.nextToken = (.ok t, s'))
    (ha : accept t.kind = some a) : andThen (s.expect c accept) f = (f (t, a), s') := by
  rw [expect, hnext]
  dsimp only
  rw [ha]
  rfl

/-- A read that succeeds has taken a token that is accepted. -/
theorem exists_nextToken_of_andThen {α β : Type} {c : TokenClass} {accept : TokenKind → Option α}
    {f : Token × α → Except SyntaxError β} {b : β}
    (h : andThen (s.expect c accept) f = (.ok b, s')) :
    ∃ t a, s.nextToken = (.ok t, s') ∧ accept t.kind = some a ∧ f (t, a) = .ok b := by
  rw [expect] at h
  cases hnext : s.nextToken with
  | mk res s₁ =>
    rw [hnext] at h
    cases res with
    | error e => cases h
    | ok t =>
      dsimp only at h
      cases ha : accept t.kind with
      | none =>
        rw [ha] at h
        cases h
      | some a =>
        rw [ha] at h
        obtain ⟨hf, rfl⟩ := Prod.mk.inj h
        exact ⟨t, a, rfl, ha, hf⟩

/-! ## Bytes -/

/-- A string token that is read as bytes is read from base64. -/
theorem bytes_of_nextToken {raw : List UInt8} {escaped : Bool}
    (hnext : s.nextToken = (.ok t, s')) (hk : t.kind = .string raw escaped)
    (ho : s.options.decodeBase64 = true) (bs : List UInt8) :
    s.bytes = (.ok bs, s') ↔ Base64.decode? raw = some bs := by
  have ha : t.kind.string? = some (raw, escaped) := by
    rw [hk]
    rfl
  rw [bytes, andThen_expect_of_nextToken _ hnext ha]
  dsimp only
  rw [if_pos ho]
  cases Base64.decode? raw <;> simp

/-- What is read as bytes is a string token. -/
theorem exists_string_of_bytes {bs : List UInt8} (h : s.bytes = (.ok bs, s')) :
    ∃ t raw escaped, s.nextToken = (.ok t, s') ∧ t.kind = .string raw escaped := by
  obtain ⟨t, ⟨raw, escaped⟩, hnext, ha, -⟩ := exists_nextToken_of_andThen h
  refine ⟨t, raw, escaped, hnext, ?_⟩
  cases hk : t.kind with
  | string raw' escaped' =>
    rw [hk] at ha
    cases ha
    rfl
  | _ =>
    rw [hk] at ha
    cases ha

/-- Bytes that are written are ahead of a reader, and it takes them. -/
theorem bytes_of_ahead {bs r : List UInt8} (ho : s.options.decodeBase64 = true)
    (h : s.Ahead (ascii '"' :: (Base64.encode bs ++ [ascii '"']) ++ r)) :
    s.bytes = (.ok bs, s.goTo r s.depth) := by
  rw [← StringLiteral.raw_ofBase64] at h
  obtain ⟨t, hk, hnext⟩ := nextToken_tree
    (Tree.string (.ofBase64 bs) : Tree NumberLiteral StringLiteral) h fun _ hn => by cases hn
  exact (bytes_of_nextToken hnext hk ho bs).2 (by rw [StringLiteral.raw_ofBase64,
    Base64.decode?_encode])

/-- Bytes that are written are read as themselves, wherever they stand and whatever follows them.
And where bytes are read, the text of the token is what is written for them, so two tokens that are
read as the same bytes have the same text between their quotes. -/
theorem bytes_writeBase64 :
    (∀ bs, ∃ payload,
      (∀ b : Buffer, (b.writeBase64 bs).toList
        = b.toList ++ ascii '"' :: (payload ++ [ascii '"'])) ∧
      (∀ options : ReadOptions, options.decodeBase64 = true → ∃ s',
        (ofBytes (ascii '"' :: (payload ++ [ascii '"'])) options).bytes = (.ok bs, s') ∧
          s'.rest = [] ∧ s'.offset = payload.length + 2) ∧
      ∀ (s : Reader) (r : List UInt8), s.options.decodeBase64 = true →
        s.Ahead (ascii '"' :: (payload ++ [ascii '"']) ++ r) →
        s.bytes = (.ok bs, s.goTo r s.depth)) ∧
    (∀ (input : List UInt8) (s : Reader) bs s', s.Within input → s.options.decodeBase64 = true →
      s.bytes = (.ok bs, s') → ∃ t payload r,
        Takes input s t (ascii '"' :: (payload ++ [ascii '"'])) r s' ∧
        ∀ b : Buffer, (b.writeBase64 bs).toList
          = b.toList ++ ascii '"' :: (payload ++ [ascii '"'])) ∧
    ∀ (s₁ s₂ s₁' s₂' : Reader) t₁ t₂ raw₁ raw₂ escaped₁ escaped₂ bs,
      s₁.options.decodeBase64 = true → s₂.options.decodeBase64 = true →
      s₁.nextToken = (.ok t₁, s₁') → s₂.nextToken = (.ok t₂, s₂') →
      t₁.kind = .string raw₁ escaped₁ → t₂.kind = .string raw₂ escaped₂ →
      s₁.bytes = (.ok bs, s₁') → s₂.bytes = (.ok bs, s₂') → raw₁ = raw₂ := by
  have hwrite : ∀ (bs : List UInt8) (b : Buffer), (b.writeBase64 bs).toList
      = b.toList ++ ascii '"' :: (Base64.encode bs ++ [ascii '"']) := by
    intro bs b
    rw [Buffer.toList_writeBase64, Quotation.bytes, StringLiteral.raw_ofBase64]
  refine ⟨fun bs => ⟨Base64.encode bs, hwrite bs, fun options ho => ?_,
    fun s r ho h => bytes_of_ahead ho h⟩, fun input s bs s' hs ho h => ?_,
    fun s₁ s₂ s₁' s₂' t₁ t₂ raw₁ raw₂ _ _ bs ho₁ ho₂ hnext₁ hnext₂ hk₁ hk₂ h₁ h₂ => ?_⟩
  · have h : (ofBytes (ascii '"' :: (Base64.encode bs ++ [ascii '"'])) options).Ahead
        (ascii '"' :: (Base64.encode bs ++ [ascii '"']) ++ []) :=
      ⟨rfl, [], .free .empty, by simp [ofBytes]⟩
    exact ⟨_, bytes_of_ahead ho h, rfl, by simp [goTo, ofBytes]⟩
  · obtain ⟨t, raw, escaped, hnext, hk⟩ := exists_string_of_bytes h
    obtain ⟨x, r, htakes⟩ := hs.takes hnext
    have hx := (hk ▸ htakes.spells).string_eq
    have hraw := Base64.encode_of_decode? ((bytes_of_nextToken hnext hk ho bs).1 h)
    subst hx
    exact ⟨t, raw, r, htakes, fun b => hraw ▸ hwrite bs b⟩
  · rw [← Base64.encode_of_decode? ((bytes_of_nextToken hnext₁ hk₁ ho₁ bs).1 h₁),
      ← Base64.encode_of_decode? ((bytes_of_nextToken hnext₂ hk₂ ho₂ bs).1 h₂)]

/-- Two bytes, as they are read from a text and as they are written after a blank. -/
theorem bytes_writeBase64_twoBytes :
    (∃ t payload r, Takes (Utf8.ofString "\"AQI=\",")
      (ofBytes (Utf8.ofString "\"AQI=\",") ⟨false, true⟩) t
      (ascii '"' :: (payload ++ [ascii '"'])) r
      ((ofBytes (Utf8.ofString "\"AQI=\",") ⟨false, true⟩).goTo (Utf8.ofString ",") 0) ∧
      ∀ b : Buffer, (b.writeBase64 [1, 2]).toList
        = b.toList ++ ascii '"' :: (payload ++ [ascii '"'])) ∧
    ∃ s', (ofBytes ((Buffer.empty.writeByte (ascii ' ')).writeBase64 [1, 2]).toList
      ⟨true, true⟩).bytes = (.ok [1, 2], s') ∧ s'.rest = [] := by
  obtain ⟨hwrite, hread, -⟩ := bytes_writeBase64
  obtain ⟨payload, happend, -, hahead⟩ := hwrite [1, 2]
  rw [happend]
  exact ⟨hread _ _ [1, 2] _ (within_ofBytes _ _) rfl (by decide +kernel), _,
    hahead _ [] rfl ⟨rfl, [ascii ' '], .free ⟨[ascii ' '], List.forall_mem_singleton.2 rfl⟩,
      by simp [ofBytes]⟩, rfl⟩

/-! ## Integers -/

/-- A number token is read as the integer that it spells, and it is refused where it stands if it
spells none. -/
theorem integer_of_number (kind : IntegerKind) {run r : List UInt8} {cs : List Char}
    (ht : Takes input s t run r s') (hk : t.kind = .number cs) (hsource : t.source = run ++ r) :
    (s.integer kind).2 = s' ∧
      (∀ v, (s.integer kind).1 = .ok v ↔ kind.Spells (numberChars run) v) ∧
      ((∀ v, ¬ kind.Spells (numberChars run) v) → (s.integer kind).1
        = .error (.locate t.offset (run ++ r) (.invalidNumber (.integer kind)))) := by
  obtain ⟨hrun, rfl⟩ := (hk ▸ ht.spells).number_isRun
  have ha : t.kind.number? = some (numberChars run) := by
    rw [hk]
    rfl
  have hparse : ∀ v, kind.parse? (numberChars run) = some v ↔ kind.Spells (numberChars run) v :=
    fun _ => IntegerKind.parse?_eq_some_iff hrun.head?_numberChars
  rw [integer, andThen_expect_of_nextToken _ ht.next ha]
  refine ⟨rfl, fun v => ?_, fun hnone => ?_⟩
  · rw [← hparse]
    dsimp only [Token.integer?]
    cases kind.parse? (numberChars run) <;> simp
  · have hp : kind.parse? (numberChars run) = none :=
      Option.eq_none_iff_forall_ne_some.2 fun v hv => hnone v ((hparse v).1 hv)
    dsimp only [Token.integer?]
    rw [hp, Token.error, hsource]

theorem integer_of_ahead {kind : IntegerKind} {v : Int} {r : List UInt8} (hv : kind.Holds v)
    (h : s.Ahead (Numeral.bytes (NumberLiteral.ofInt v) ++ r)) (hr : EndsRun r) :
    s.integer kind = (.ok v, s.goTo r s.depth) := by
  have hy := integer_tree kind
    (Tree.number (.ofInt v) : Tree NumberLiteral StringLiteral) h hr
  have hvalue : (NumberLiteral.ofInt v).integer? kind = some v := NumberLiteral.integer?_ofInt hv
  rwa [show (Tree.number (.ofInt v) : Tree NumberLiteral StringLiteral).number?.bind
    (Numeral.integer? kind) = some v from hvalue] at hy

/-! ## Map keys -/

theorem mapKey_of_ahead {kind : KeyKind} {key : MapKey} {r : List UInt8} (hkey : key.OfKind kind)
    (ho : kind = .string → s.options.decodeEscapes = true)
    (h : s.Ahead (Quotation.bytes (StringLiteral.ofString key.text) ++ r)) :
    s.mapKey kind = (.ok key, s.goTo r s.depth) := by
  obtain ⟨t, hk, hnext⟩ := nextToken_tree
    (Tree.string (.ofString key.text) : Tree NumberLiteral StringLiteral) h fun _ hn => by cases hn
  have ha : t.kind.string? = some (Quotation.raw (StringLiteral.ofString key.text),
      (Quotation.raw (StringLiteral.ofString key.text)).contains (ascii '\\')) := by
    rw [hk]
    rfl
  have hvalue := toOption_mapKey t s.options kind (StringLiteral.ofString key.text)
  rw [MapKey.key?_ofString_text hkey, MapKey.asRead_of_decodes hkey ho] at hvalue
  have hok : ∀ x : Except SyntaxError MapKey, x.toOption = some key → x = .ok key := by
    intro x hx
    cases x with
    | error e => cases hx
    | ok k => exact congrArg Except.ok (Option.some.inj hx)
  rw [mapKey, andThen_expect_of_nextToken _ hnext ha]
  exact Prod.ext (hok _ hvalue) rfl

/-- Any JSON reader reads the key that is written as the text of the key. -/
theorem readsAs_write (key : MapKey) : ReadsAs (key.write .empty).toList key.text := by
  have hread := readsAs_bytes (.ofString key.text)
  rw [StringLiteral.meaning_ofString] at hread
  rwa [MapKey.toList_write, Buffer.toList_empty, List.nil_append]

/-- A number token is the longest run of number bytes, and it is read as an integer if it spells
one; otherwise the read fails at the token, which is passed all the same. An integer that is written
is read as itself in front of whatever does not go on with it, and so is a key. So keys that differ
are read as names that differ. -/
theorem integer_and_mapKey_text :
    (∀ (kind : IntegerKind) (input : List UInt8) (s s' : Reader) t cs, s.Within input →
      s.nextToken = (.ok t, s') → t.kind = .number cs → ∃ run r,
        run = (input.drop t.offset).takeWhile TokenKind.isNumberByte ∧
        Takes input s t run r s' ∧ (s.integer kind).2 = s' ∧
        (∀ v, (s.integer kind).1 = .ok v ↔ kind.Spells (numberChars run) v) ∧
        ((∀ v, ¬ kind.Spells (numberChars run) v) → (s.integer kind).1
          = .error (.locate t.offset (input.drop t.offset) (.invalidNumber (.integer kind))))) ∧
    (∀ (kind : IntegerKind) v, kind.Holds v → ∃ text,
      (∀ b : Buffer, (b.writeInteger v).toList = b.toList ++ text) ∧
      ∀ (s : Reader) r, s.Ahead (text ++ r) → EndsRun r →
        s.integer kind = (.ok v, s.goTo r s.depth)) ∧
    (∀ (kind : KeyKind) (key : MapKey), key.OfKind kind → ∃ text,
      (∀ b : Buffer, (key.write b).toList = b.toList ++ text) ∧
      ∀ (s : Reader) r, (kind = .string → s.options.decodeEscapes = true) → s.Ahead (text ++ r) →
        s.mapKey kind = (.ok key, s.goTo r s.depth)) ∧
    ∀ (kind : KeyKind) (key key' : MapKey), key.OfKind kind → key'.OfKind kind → key ≠ key' →
      ∃ name name', name ≠ name' ∧ ReadsAs (key.write .empty).toList name ∧
        ReadsAs (key'.write .empty).toList name' := by
  refine ⟨fun kind input s s' t cs hs hnext hk => ?_, fun kind v hv => ?_,
    fun kind key hkey => ?_, fun kind key key' hkey hkey' hne => ?_⟩
  · obtain ⟨run, r, htakes⟩ := hs.takes hnext
    have hsource : t.source = run ++ r :=
      ((hs.nextToken.2 t (congrArg Prod.fst hnext)).source).trans htakes.source
    have hscan := htakes.scan
    rw [hk] at hscan
    obtain ⟨hcursor, hok, herror⟩ := integer_of_number kind htakes hk hsource
    refine ⟨run, r, ?_, htakes, hcursor, hok, ?_⟩
    · rw [htakes.source, TokenKind.takeWhile_of_scan hscan]
    · rwa [htakes.source]
  · exact ⟨_, fun b => b.toList_writeInteger v, fun s r h hr => integer_of_ahead hv h hr⟩
  · exact ⟨_, key.toList_write, fun s r ho h => mapKey_of_ahead hkey ho h⟩
  · refine ⟨key.text, key'.text, fun htext => hne ?_, readsAs_write key, readsAs_write key'⟩
    have hparse := MapKey.parse?_text hkey
    rw [htext, MapKey.parse?_text hkey'] at hparse
    exact (Option.some.inj hparse).symm

/-- The least number that is too large for 32 bits, the least value of 32 bits, and a key. -/
theorem integer_and_mapKey_text_limits :
    IntegerKind.uint64.Spells "4294967296".toList 4294967296 ∧
      (∀ v, ¬ IntegerKind.uint32.Spells "4294967296".toList v) ∧
    ((ofBytes (Buffer.empty.writeInteger (-2147483648)).toList {}).integer .int32).1
      = .ok (-2147483648) ∧
    ((ofBytes ((MapKey.integer (-5)).write .empty).toList {}).mapKey (.integer .int64)).1
      = .ok (.integer (-5)) ∧
    ∃ name name', name ≠ name' ∧ ReadsAs ((MapKey.bool true).write .empty).toList name ∧
      ReadsAs ((MapKey.bool false).write .empty).toList name' := by
  obtain ⟨hread, hinteger, hkey, hdistinct⟩ := integer_and_mapKey_text
  have hnumber : ∀ kind : IntegerKind, ∀ v,
      ((ofBytes (Utf8.ofString " 4294967296,") {}).integer kind).1 = .ok v ↔
        kind.Spells "4294967296".toList v := by
    intro kind
    obtain ⟨run, r, rfl, -, -, hok, -⟩ := hread kind _ (ofBytes (Utf8.ofString " 4294967296,") {})
      ((ofBytes (Utf8.ofString " 4294967296,") {}).goTo (Utf8.ofString ",") 0)
      ⟨.number "4294967296".toList, 1, Utf8.ofString "4294967296,"⟩ _ (within_ofBytes _ _)
      (by decide +kernel) rfl
    exact hok
  have hlarge : ((ofBytes (Utf8.ofString " 4294967296,") {}).integer .uint32).1.toOption
      = none := by
    decide +kernel
  obtain ⟨text, happend, hleast⟩ := hinteger .int32 (-2147483648) (by decide)
  obtain ⟨keyText, happend', hfive⟩ :=
    hkey (.integer .int64) (.integer (-5)) ⟨.int64, rfl, by decide⟩
  refine ⟨(hnumber .uint64 _).1 (by decide +kernel), fun v hv => ?_, ?_, ?_,
    hdistinct .bool (.bool true) (.bool false) rfl rfl (by decide)⟩
  · rw [(hnumber .uint32 v).2 hv] at hlarge
    cases hlarge
  · rw [happend]
    exact congrArg Prod.fst (hleast _ [] ⟨rfl, [], .free .empty, by simp [ofBytes]⟩
      fun _ _ h => by cases h)
  · rw [happend']
    exact congrArg Prod.fst (hfive _ [] (fun h => by cases h)
      ⟨rfl, [], .free .empty, by simp [ofBytes]⟩)

end Reader

end ProtoJson
