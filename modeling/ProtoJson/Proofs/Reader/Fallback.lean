import ProtoJson.Proofs.Grammar.NumberLiteral
import ProtoJson.Proofs.Grammar.StringLiteral
import ProtoJson.Proofs.Reader.Recovery

/-!
# Reading any JSON text

The fallback reads every text of RFC 8259 as the value that it denotes, with `null` in place of the
containers that are nested too deeply, and stops right after it.
-/

namespace ProtoJson

namespace Grammar

/-- The texts of RFC 8259. -/
abbrev Json := Tree NumberLiteral StringLiteral

mutual

/-- The value that a text denotes. The last member of a key wins. -/
def Tree.meaning (decodeEscapes : Bool) : Json → Value
  | .null => .null
  | .bool b => .bool b
  | .number n => .number (n.binary .double)
  | .string s => .string (s.text decodeEscapes)
  | .array _ items => .array (items.meaning decodeEscapes)
  | .object _ members => .object (Value.membersOfList (members.meaning decodeEscapes))

/-- The values of the items. -/
def Items.meaning (decodeEscapes : Bool) : Items NumberLiteral StringLiteral → List Value
  | .nil => []
  | .cons _ v _ rest => v.meaning decodeEscapes :: rest.meaning decodeEscapes

/-- The keys and values of the members, in order. -/
def Members.meaning (decodeEscapes : Bool) :
    Members NumberLiteral StringLiteral → List (String × Value)
  | .nil => []
  | .cons _ key _ _ v _ rest =>
    (key.text decodeEscapes, v.meaning decodeEscapes) :: rest.meaning decodeEscapes

end

end Grammar

namespace Value

mutual

/-- The value with `null` in place of what is nested in more than `n` containers. -/
def cut : Nat → Value → Value
  | _, null => null
  | _, bool b => bool b
  | _, number x => number x
  | _, string s => string s
  | 0, array _ | 0, object _ => null
  | n + 1, array items => array (cutItems n items)
  | n + 1, object members => object (cutMembers n members)

/-- The items, each cut. -/
def cutItems (n : Nat) : List Value → List Value
  | [] => []
  | v :: vs => v.cut n :: cutItems n vs

/-- The members, each value cut. -/
def cutMembers (n : Nat) : List (String × Value) → List (String × Value)
  | [] => []
  | (key, v) :: ms => (key, v.cut n) :: cutMembers n ms

end

theorem insertMember_cut (n : Nat) (key : String) (v : Value) (ms : List (String × Value)) :
    insertMember key (v.cut n) (cutMembers n ms) = cutMembers n (insertMember key v ms) := by
  induction ms with
  | nil => simp [insertMember, cutMembers]
  | cons m ms ih =>
    obtain ⟨k, w⟩ := m
    simp only [insertMember, cutMembers]
    split
    · simp only [cutMembers]
    · split
      · simp only [cutMembers]
      · simp only [cutMembers, ih]

/-- The members with those that pairs of keys and values make added in turn. -/
def addMembers (pairs ms : List (String × Value)) : List (String × Value) :=
  pairs.foldl (fun ms (key, v) => insertMember key v ms) ms

/-- Members may be cut one by one. -/
theorem addMembers_cut (n : Nat) (pairs ms : List (String × Value)) :
    addMembers (cutMembers n pairs) (cutMembers n ms) = cutMembers n (addMembers pairs ms) := by
  induction pairs generalizing ms with
  | nil => rfl
  | cons p pairs ih =>
    obtain ⟨key, v⟩ := p
    show addMembers (cutMembers n pairs) (insertMember key (v.cut n) (cutMembers n ms)) = _
    rw [insertMember_cut, ih]
    rfl

end Value

namespace Reader

open Grammar

theorem enter_goTo (s : Reader) (r : List UInt8) (d : Nat) (t : Token) :
    (d < maxDepth → (s.goTo r d).enter t = (.ok (), s.goTo r (d + 1))) ∧
      (¬ d < maxDepth → ∃ e, (s.goTo r d).enter t = (.error e, s.goTo r d)) := by
  unfold enter
  exact ⟨fun h => if_pos h, fun h => ⟨_, if_neg h⟩⟩

/-- A comma or the closing bracket follows an item. -/
theorem stopsItem_items {ν σ : Type} [Numeral ν] [Quotation σ] (items : Items ν σ) {c : UInt8}
    (hc : IsCloser c) (r : List UInt8) : StopsItem (items.bytes false ++ c :: r) := by
  cases items with
  | nil => exact ⟨c, r, rfl, .inr hc⟩
  | cons before v after rest =>
    rw [Items.bytes_cons_append]
    exact ⟨ascii ',', _, rfl, .inl rfl⟩

theorem stopsItem_members {ν σ : Type} [Numeral ν] [Quotation σ] (members : Members ν σ)
    {c : UInt8} (hc : IsCloser c) (r : List UInt8) :
    StopsItem (members.bytes false ++ c :: r) := by
  cases members with
  | nil => exact ⟨c, r, rfl, .inr hc⟩
  | cons before key afterKey beforeValue v after rest =>
    rw [Members.bytes_cons_append]
    exact ⟨ascii ',', _, rfl, .inl rfl⟩

variable {s : Reader} {r : List UInt8}

/-- A value that is no container is the value of its token. -/
theorem tokenValue_tree (t : Json) (s' : Reader) (tok : Token) (hk : tok.kind = t.head)
    (ht : ∀ b, t.head ≠ .symbol b) (n : Nat) :
    s'.tokenValue tok = .ok ((t.meaning s'.options.decodeEscapes).cut n) := by
  unfold tokenValue
  rw [hk]
  cases t with
  | null => simp [Tree.head, Tree.meaning, Value.cut]
  | bool b => simp [Tree.head, Tree.meaning, Value.cut]
  | number m =>
    have hb : Binary.parse? .double (numberChars (Numeral.bytes m)) = some (m.binary .double) :=
      (Numeral.binary?_eq .double m).symm
    simp [Tree.head, Tree.meaning, Value.cut, Token.binary?, hb, Except.map]
  | string q =>
    have hq : rawText? s'.options.decodeEscapes (Quotation.raw q)
        = some (q.text s'.options.decodeEscapes) := (Quotation.text?_eq _ q).symm
    rw [← toOption_text? tok] at hq
    simp only [Tree.head, Tree.meaning, Value.cut]
    cases htext : tok.text? s'.options (Quotation.raw q) _ with
    | error e => rw [htext] at hq; cases hq
    | ok text =>
      rw [htext] at hq
      cases hq
      rfl
  | array pad items => exact absurd rfl (ht _)
  | object pad members => exact absurd rfl (ht _)

/-- A value that is no container is taken as one token. -/
theorem value_scalar (t : Json) (ht : ∀ b, t.head ≠ .symbol b) (n : Nat)
    (h : s.Ahead (t.bytes ++ r)) (hr : EndsRun r) :
    s.value = ((t.meaning s.options.decodeEscapes).cut n, s.goTo r s.depth) := by
  obtain ⟨tok, hk, hnext⟩ := nextToken_tree t h fun _ _ => hr
  have htail : t.tail = [] := by
    cases t with
    | array pad items => exact absurd rfl (ht _)
    | object pad members => exact absurd rfl (ht _)
    | _ => rfl
  rw [value_eq, hnext]
  dsimp only
  rw [hk, if_neg (ht _), if_neg (ht _), tokenValue_tree t _ tok hk ht n, htail]
  rfl

/-- An array that may be opened is read item by item. -/
theorem value_array (pad : Blanks) (items : Items NumberLiteral StringLiteral)
    (h : s.Ahead ((Tree.array pad items : Json).bytes ++ r)) (hr : EndsRun r)
    (hd : s.depth < maxDepth) {vs : List Value} {s' : Reader}
    (hitems : (s.goTo (pad.bytes ++ (items.bytes true ++ ascii ']' :: r)) (s.depth + 1)).items []
      = (.ok vs, s')) : s.value = (.array vs, s') := by
  obtain ⟨tok, hk, hnext⟩ := nextToken_tree _ h fun _ _ => hr
  have hk' : tok.kind = .symbol (ascii '[') := hk
  have hne : ¬ tok.kind = .symbol (ascii '{') := by
    rw [hk']
    decide
  rw [Tree.tail_array] at hnext
  rw [value_eq, hnext]
  dsimp only
  rw [if_neg hne, if_pos hk', (enter_goTo s _ s.depth tok).1 hd]
  dsimp only
  rw [hitems]

/-- An object that may be opened is read member by member. -/
theorem value_object (pad : Blanks) (members : Members NumberLiteral StringLiteral)
    (h : s.Ahead ((Tree.object pad members : Json).bytes ++ r)) (hr : EndsRun r)
    (hd : s.depth < maxDepth) {ms : List (String × Value)} {s' : Reader}
    (hmembers : (s.goTo (pad.bytes ++ (members.bytes true ++ ascii '}' :: r))
      (s.depth + 1)).members [] = (.ok ms, s')) : s.value = (.object ms, s') := by
  obtain ⟨tok, hk, hnext⟩ := nextToken_tree _ h fun _ _ => hr
  have hk' : tok.kind = .symbol (ascii '{') := hk
  rw [Tree.tail_object] at hnext
  rw [value_eq, hnext]
  dsimp only
  rw [if_pos hk', (enter_goTo s _ s.depth tok).1 hd]
  dsimp only
  rw [hmembers]

/-- A container that may not be opened is passed, with the blanks after it. -/
theorem value_deep (t : Json) {b : UInt8} (hb : b = ascii '{' ∨ b = ascii '[')
    (hbytes : t.bytes = b :: t.tail) (hhead : t.head = .symbol b) (after : Blanks)
    (h : s.Ahead (t.bytes ++ (after.bytes ++ r))) (hr : StopsItem r) (hd : ¬ s.depth < maxDepth) :
    s.value = (.null, s.goTo r s.depth) := by
  obtain ⟨tok, hk, hnext⟩ := nextToken_tree t h fun _ _ => hr.endsRun.blanks after
  rw [hhead] at hk
  obtain ⟨e, he⟩ := (enter_goTo s (t.tail ++ (after.bytes ++ r)) s.depth tok).2 hd
  have hrec := recoverFrom_open t hb hbytes after hr h s.depth
  rw [value_eq, hnext]
  dsimp only
  rcases hb with rfl | rfl
  · rw [if_pos hk, he]
    dsimp only
    rw [hrec]
  · have hne : ¬ tok.kind = .symbol (ascii '{') := by
      rw [hk]
      decide
    rw [if_neg hne, if_pos hk, he]
    dsimp only
    rw [hrec]

mutual

/-- A value is read as what it denotes, and the reader stops right after it or, if it is nested too
deeply, after the blanks that follow it. -/
theorem value_tree (t : Json) (after : Blanks) (s : Reader) (r : List UInt8)
    (h : s.Ahead (t.bytes ++ (after.bytes ++ r))) (hr : EndsRun r)
    (hstop : ¬ s.depth < maxDepth → StopsItem r) :
    ∃ w : Blanks, s.value = ((t.meaning s.options.decodeEscapes).cut (maxDepth - s.depth),
      s.goTo (w.bytes ++ r) s.depth) ∧ (w = after ∨ (w = .empty ∧ ¬ s.depth < maxDepth)) := by
  have hr' : EndsRun (after.bytes ++ r) := hr.blanks after
  have hle := h.length_le
  -- A container is read with one level less to spare, or passed whole if there is none.
  cases t with
  | array pad items =>
    by_cases hd : s.depth < maxDepth
    · have hitems := items_tree items true _ (after.bytes ++ r)
        (atLoop_open (s := s) pad _ (s.depth + 1)) hd []
      simp only [Tree.bytes, List.length_append, List.length_cons, List.length_nil] at hle
      rw [goTo_goTo (by simp; omega) (by simp; omega)] at hitems
      have hn : maxDepth - s.depth = maxDepth - (s.depth + 1) + 1 := by omega
      rw [value_array pad items h hr' hd hitems, Tree.meaning, hn, Value.cut]
      exact ⟨after, rfl, .inl rfl⟩
    · have hn : maxDepth - s.depth = 0 := by omega
      rw [value_deep _ (.inr rfl) rfl rfl after h (hstop hd) hd, Tree.meaning, hn, Value.cut]
      exact ⟨.empty, rfl, .inr ⟨rfl, hd⟩⟩
  | object pad members =>
    by_cases hd : s.depth < maxDepth
    · have hmembers := members_tree members true _ (after.bytes ++ r)
        (atLoop_open (s := s) pad _ (s.depth + 1)) hd []
      simp only [Tree.bytes, List.length_append, List.length_cons, List.length_nil] at hle
      rw [goTo_goTo (by simp; omega) (by simp; omega)] at hmembers
      have hn : maxDepth - s.depth = maxDepth - (s.depth + 1) + 1 := by omega
      have hcut := Value.addMembers_cut (maxDepth - (s.depth + 1))
        (members.meaning s.options.decodeEscapes) []
      rw [Value.cutMembers] at hcut
      rw [value_object pad members h hr' hd hmembers, Tree.meaning, hn, Value.cut]
      refine ⟨after, ?_, .inl rfl⟩
      rw [depth_goTo, options_goTo, hcut]
      rfl
    · have hn : maxDepth - s.depth = 0 := by omega
      rw [value_deep _ (.inl rfl) rfl rfl after h (hstop hd) hd, Tree.meaning, hn, Value.cut]
      exact ⟨.empty, rfl, .inr ⟨rfl, hd⟩⟩
  | null => exact ⟨after, value_scalar .null (by simp [Tree.head]) _ h hr', .inl rfl⟩
  | bool b => exact ⟨after, value_scalar (.bool b) (by simp [Tree.head]) _ h hr', .inl rfl⟩
  | number n => exact ⟨after, value_scalar (.number n) (by simp [Tree.head]) _ h hr', .inl rfl⟩
  | string q => exact ⟨after, value_scalar (.string q) (by simp [Tree.head]) _ h hr', .inl rfl⟩

/-- The items of an array are read in turn. -/
theorem items_tree (items : Items NumberLiteral StringLiteral) (first : Bool) (s : Reader)
    (r : List UInt8) (h : s.AtLoop first (items.bytes first ++ ascii ']' :: r))
    (hd : s.depth ≤ maxDepth) (before : List Value) :
    s.items before = (.ok (before.reverse ++ Value.cutItems (maxDepth - s.depth)
      (items.meaning s.options.decodeEscapes)), s.goTo r (s.depth - 1)) := by
  cases items with
  | nil =>
    obtain ⟨hat, hclose⟩ := h.close (.inr rfl) before.reverse
    rw [items_eq, if_pos hat, hclose]
    simp [Items.meaning, Value.cutItems]
  | cons blanks v after rest =>
    rw [Items.bytes_cons_append] at h
    have hle := h.length_le
    simp only [List.length_append, List.length_cons] at hle
    obtain ⟨hat, hpeek⟩ := h.item
    have hstop := stopsItem_items rest (.inr rfl) r
    obtain ⟨w, hv, hw⟩ := value_tree v after s _ h.ahead hstop.endsRun fun _ => hstop
    have hlen : w.bytes.length ≤ after.bytes.length := by
      rcases hw with rfl | ⟨rfl, -⟩
      · exact Nat.le_refl _
      · exact Nat.zero_le _
    -- The rest is read behind the comma, wherever the value stops among the blanks in front of it.
    have hrest := items_tree rest false _ r (atLoop_comma (s := s) w _ s.depth) hd
    rw [items_eq, if_neg (by simp [hat]), if_pos hpeek, hv]
    dsimp only
    rw [hrest, goTo_comma, goTo_goTo (by simp; omega) (by simp; omega)]
    simp [Items.meaning, Value.cutItems]

/-- The members of an object are read in turn. -/
theorem members_tree (members : Members NumberLiteral StringLiteral) (first : Bool) (s : Reader)
    (r : List UInt8) (h : s.AtLoop first (members.bytes first ++ ascii '}' :: r))
    (hd : s.depth ≤ maxDepth) (before : List (String × Value)) :
    s.members before = (.ok (Value.addMembers (Value.cutMembers (maxDepth - s.depth)
      (members.meaning s.options.decodeEscapes)) before), s.goTo r (s.depth - 1)) := by
  cases members with
  | nil =>
    obtain ⟨hat, hclose⟩ := h.close (.inl rfl) before
    rw [members_eq, if_pos hat, hclose]
    simp [Members.meaning, Value.cutMembers, Value.addMembers]
  | cons blanks key afterKey beforeValue v after rest =>
    rw [Members.bytes_cons_append] at h
    have hle := h.length_le
    simp only [List.length_append, List.length_cons] at hle
    obtain ⟨hat, hkey, -⟩ := h.key
    have hstop := stopsItem_members rest (.inl rfl) r
    obtain ⟨w, hv, hw⟩ := value_tree v after _ _
      (ahead_colon (s := s) afterKey beforeValue _ s.depth) hstop.endsRun fun _ => hstop
    have hlen : w.bytes.length ≤ after.bytes.length := by
      rcases hw with rfl | ⟨rfl, -⟩
      · exact Nat.le_refl _
      · exact Nat.zero_le _
    simp only [depth_colon, options_colon, goTo_colon, depth_goTo, options_goTo] at hv
    rw [goTo_goTo (by simp; omega) (by simp; omega)] at hv
    have hrest := members_tree rest false _ r (atLoop_comma (s := s) w _ s.depth) hd
    rw [members_eq, if_neg (by simp [hat]), show s.string = _ from hkey]
    dsimp only
    rw [hv]
    dsimp only
    rw [hrest, goTo_comma, goTo_goTo (by simp; omega) (by simp; omega)]
    simp [Members.meaning, Value.cutMembers, Value.addMembers]

end

/-! ## Reading a text from its start -/

/-- What may follow a text: blanks, a comma or a closing bracket, and anything after them. -/
def EndsValue (rest : List UInt8) : Prop :=
  ∀ b x, rest = b :: x → isBlank b = true ∨ b = ascii ',' ∨ IsCloser b

theorem endsValue_nil : EndsValue [] := fun _ _ h => by cases h

theorem endsValue_comma (r : List UInt8) : EndsValue (ascii ',' :: r) := by
  intro b x h
  cases h
  exact .inr (.inl rfl)

theorem EndsValue.endsRun {rest : List UInt8} (h : EndsValue rest) : EndsRun rest := by
  intro b x hb
  have key : ∀ b : UInt8, (isBlank b = true ∨ b = ascii ',' ∨ IsCloser b) →
      TokenKind.isNumberByte b = false := forall_byte (by decide +kernel)
  exact key b (h b x hb)

/-- A new reader passes the blanks in front of a value and the value. -/
theorem value_front (options : ReadOptions) (lead : Blanks) (t : Json) {rest : List UInt8}
    (hrest : EndsValue rest) :
    (ofBytes (lead.bytes ++ t.bytes ++ rest) options).value
      = ((t.meaning options.decodeEscapes).cut maxDepth,
        { options, rest, offset := (lead.bytes ++ t.bytes).length }) := by
  have h : (ofBytes (lead.bytes ++ t.bytes ++ rest) options).Ahead
      (t.bytes ++ (Blanks.empty.bytes ++ rest)) :=
    ⟨rfl, lead.bytes, .free lead, by simp [ofBytes]⟩
  obtain ⟨w, hv, hw⟩ := value_tree t .empty _ rest h hrest.endsRun
    (fun hd => absurd (show (0 : Nat) < maxDepth by decide) hd)
  obtain rfl : w = .empty := hw.elim id And.left
  rw [hv]
  simp [goTo, ofBytes]
  omega

/-- Every text is read as the value that it denotes, with `null` in place of what is nested in more
than 128 containers. Its numbers are the nearest of 64 bits, by all digits of an exponent unless it
is very large. -/
theorem value_denotes (lead : Blanks) (t : Json) {rest : List UInt8} (hrest : EndsValue rest)
    (decodeBase64 : Bool) :
    (∃ s', (ofBytes (lead.bytes ++ t.bytes ++ rest) ⟨true, decodeBase64⟩).value
        = ((t.meaning true).cut 128, s') ∧
      s'.offset = (lead.bytes ++ t.bytes).length ∧ s'.rest = rest ∧ s'.depth = 0) ∧
    ∀ n : NumberLiteral, n.Rounds n.size (n.binary .double) ∧
      ((∀ e, n.exponent = some e → ofDigits e.size.chars < 655360) → n.size = n.exactSize) := by
  constructor
  · exact ⟨_, value_front _ lead t hrest, rfl, rfl, rfl⟩
  · intro n
    exact ⟨n.rounds_binary BinaryFormat.isInterchange_double, n.size_eq_exactSize⟩

/-- A text in a longer one. -/
theorem value_denotes_null :
    EndsValue (Utf8.ofString ", 1") ∧
      ∃ s', (ofBytes (Utf8.ofString "[null], 1") ⟨true, false⟩).value = (.array [.null], s') ∧
        s'.offset = 6 := by
  have hrest : EndsValue (Utf8.ofString ", 1") := endsValue_comma _
  obtain ⟨⟨s', hvalue, hoffset, -, -⟩, -⟩ := value_denotes .empty
    (.array .empty (.cons .empty .null .empty .nil)) hrest false
  exact ⟨hrest, s', hvalue, hoffset⟩

/-- A number of one digit after `zeros` places, with an exponent that passes the bound. -/
def tinyNumber (zeros : Nat) : NumberLiteral where
  negative := false
  whole := ⟨['0'], by decide, by decide⟩
  canonical _ := rfl
  fraction := some (Digits.pad ⟨['1'], by decide, by decide⟩ zeros)
  exponent := some ⟨false, .none, ⟨['6', '5', '5', '3', '6', '1'], by decide, by decide⟩⟩

theorem size_tinyNumber (zeros : Nat) :
    (tinyNumber zeros).size = ⟨1, 65536 - (zeros + 1 : Nat)⟩ ∧
      (tinyNumber zeros).exactSize = ⟨1, 655361 - (zeros + 1 : Nat)⟩ := by
  have hdigits : ofDigits (['0'] ++ (List.replicate zeros '0' ++ ['1'])) = 1 := by
    rw [ofDigits_append, ofDigits_append, ofDigits_replicate_zero]
    simp [ofDigits, digitValue]
  have hlength : (List.replicate zeros '0' ++ ['1']).length = zeros + 1 := by simp
  constructor
  · simp only [NumberLiteral.size, NumberLiteral.fractionDigits, tinyNumber, Option.elim_some,
      Digits.pad, hdigits, hlength]
    rfl
  · simp only [NumberLiteral.exactSize, NumberLiteral.size, NumberLiteral.fractionDigits,
      tinyNumber, Option.elim_some, Digits.pad, hdigits, hlength]
    rfl

theorem value_number (n : NumberLiteral) :
    (ofBytes (Utf8.encode n.chars) ⟨true, false⟩).value.1 = .number (n.binary .double) := by
  have h := value_front ⟨true, false⟩ .empty (.number n) endsValue_nil
  have hbytes : Blanks.empty.bytes ++ (Tree.number n : Json).bytes ++ [] = Utf8.encode n.chars :=
    List.append_nil _
  rw [hbytes, Tree.meaning, Value.cut] at h
  rw [h]

/-- A number whose exponent is very large is not always read as the nearest one: this one is one,
and it is read as zero. -/
theorem value_tinyNumber :
    (tinyNumber 655360).exactSize.value = 1 ∧
      (ofBytes (Utf8.encode (tinyNumber 655360).chars) ⟨true, false⟩).value.1 = .number .zero ∧
      ¬ (tinyNumber 655360).Rounds (tinyNumber 655360).exactSize (.zero : Binary64) := by
  obtain ⟨hsize, hexact⟩ := size_tinyNumber 655360
  have hvalue : (tinyNumber 655360).exactSize.value = 1 := by
    rw [hexact]
    norm_num [Decimal.value]
  refine ⟨hvalue, ?_, ?_⟩
  · have hround : (tinyNumber 655360).size.round .double = 0 := by
      rw [hsize]
      decide
    rw [value_number, NumberLiteral.binary, hround]
    rfl
  · rintro ⟨-, hn⟩
    have hpattern : BinaryFormat.double.value
        ((1022 + 1) * 2 ^ BinaryFormat.double.fractionBits) = 1 :=
      BinaryFormat.value_one (by decide)
    have hone := hn.nearest ((1022 + 1) * 2 ^ BinaryFormat.double.fractionBits) (by decide)
      (by decide)
    rw [hvalue, hpattern, sub_self, abs_zero] at hone
    rcases hone with h | ⟨h, -⟩
    · exact absurd h (not_lt.2 (abs_nonneg _))
    · have h0 : (Binary.zero : Binary64).magnitude = 0 := by decide
      rw [h0, BinaryFormat.value_zero] at h
      norm_num at h

end Reader

end ProtoJson
