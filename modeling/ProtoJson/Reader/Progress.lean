import ProtoJson.Reader.Scalar

/-!
# Progress of reads

`remaining` counts what a reader still has in front of it. No read raises it, and a read that
succeeds lowers it, so a decoder that loops over successful reads comes to an end.
-/

namespace ProtoJson

namespace TokenKind

/-- A keyword takes as many bytes as its word has. -/
private theorem keyword_length {word : String} {kind k : TokenKind} {input : List UInt8} {n : Nat}
    (h : keyword word kind input = .ok (k, n)) : n = (Utf8.ofString word).length := by
  unfold keyword at h
  dsimp only at h
  split at h
  · simp only [Except.ok.injEq, Prod.mk.injEq] at h
    exact h.2.symm
  · cases h

/-- A token is not empty. -/
theorem length_scan_pos {input : List UInt8} {k : TokenKind} {n : Nat}
    (h : scan input = .ok (k, n)) : 0 < n ∧ 0 < input.length := by
  unfold scan at h
  split at h
  · cases h
  · next b r =>
    refine ⟨?_, by simp⟩
    split at h
    · cases h
      decide
    split at h
    · split at h
      · cases h
        omega
      · cases h
    split at h
    · next hb =>
      simp only [Except.ok.injEq, Prod.mk.injEq] at h
      have hn : isNumberByte b = true := by
        rcases hb with rfl | hb
        · decide
        · simp [isNumberByte, hb]
      rw [← h.2, List.takeWhile_cons_of_pos hn]
      simp
    split at h
    · rw [keyword_length h]
      decide
    split at h
    · rw [keyword_length h]
      decide
    split at h
    · rw [keyword_length h]
      decide
    · cases h

/-- A closing bracket is a token. -/
theorem scan_closer {b : UInt8} {r : List UInt8} (hb : b = ascii '}' ∨ b = ascii ']') :
    scan (b :: r) = .ok (.symbol b, 1) := by
  rcases hb with rfl | rfl <;> rfl

end TokenKind

namespace Reader

/-! ## The ways of a scan -/

/-- How a scan comes out. Where nothing is announced, the token follows the blanks. Where a
separator is, it stands in front of the token; a closing bracket may take the place of a comma. If
neither is there, blanks are all that is passed. -/
inductive Scanned (s : Reader) (res : Except SyntaxError Token × Reader) : Prop where
  | unannounced (hp : s.pending = none) (h : s.scanUnseparated = res)
  | separated {c : UInt8} {r : List UInt8} (hc : c = ascii ',' ∨ c = ascii ':')
    (hp : s.pending = some c) (hr : s.skipBlanks.rest = c :: r)
    (h : { s.skipBlanks.advance 1 with pending := none }.scanUnseparated = res)
  | closed {b : UInt8} {r : List UInt8} (hb : b = ascii '}' ∨ b = ascii ']')
    (hp : s.pending = some (ascii ',')) (hr : s.skipBlanks.rest = b :: r)
    (h : { s.skipBlanks with pending := none }.scanToken = res)
  | missing {p : UInt8} {fault : Fault} (hp : s.pending = some p)
    (hr : ∀ b r, s.skipBlanks.rest = b :: r → p = ascii ',' →
      b ≠ ascii ',' ∧ b ≠ ascii '}' ∧ b ≠ ascii ']')
    (hfault : ∀ expected found, fault ≠ .unexpectedToken expected found)
    (h : (.error (s.skipBlanks.error fault), s.skipBlanks) = res)

theorem scanned (s : Reader) : Scanned s s.scan := by
  cases hp : s.pending with
  | none => exact .unannounced hp (by rw [scan, hp])
  | some p =>
    rw [scan, hp]
    dsimp only
    split
    · next hr =>
      refine .missing hp (fun b r hb => ?_) (fun _ _ hf => by cases hf) rfl
      rw [hr] at hb
      cases hb
    · next b r hr =>
      have hfirst : ∀ b' r', s.skipBlanks.rest = b' :: r' → b' = b := by
        intro b' r' hr'
        rw [hr] at hr'
        exact (List.cons.inj hr').1.symm
      split
      · next hsep =>
        split
        · next hbp => exact .separated hsep (hbp ▸ hp) hr rfl
        · next hbp =>
          refine .missing hp (fun b' r' hr' hcomma => ?_) (fun _ _ hf => by cases hf) rfl
          obtain rfl := hfirst b' r' hr'
          obtain rfl := hsep.resolve_left fun hb => hbp (hb.trans hcomma.symm)
          decide
      · next hsep =>
        split
        · next hb => exact .closed hb.1 (hb.2 ▸ hp) hr rfl
        · next hb =>
          refine .missing hp (fun b' r' hr' hcomma => ?_) (fun _ _ hf => by cases hf) rfl
          obtain rfl := hfirst b' r' hr'
          exact ⟨fun h => hsep (.inl h), fun h => hb ⟨.inl h, hcomma⟩,
            fun h => hb ⟨.inr h, hcomma⟩⟩

theorem scanned_of_eq {s : Reader} {res : Except SyntaxError Token × Reader} (h : s.scan = res) :
    Scanned s res := h ▸ scanned s

/-- A closing bracket at the cursor is taken. -/
theorem scanToken_of_closer {s : Reader} {b : UInt8} {r : List UInt8}
    {res : Except SyntaxError Token × Reader} (hb : b = ascii '}' ∨ b = ascii ']')
    (h : s.scanToken = res) (hr : s.rest = b :: r) :
    res = (.ok ⟨.symbol b, s.offset, b :: r⟩, s.advance 1) := by
  rw [← h, scanToken, hr, TokenKind.scan_closer hb]

/-! ## What remains -/

/-- Twice the bytes after the cursor, and one for a token that is kept. -/
def remaining (s : Reader) : Nat := 2 * s.rest.length + s.token.toList.length

@[simp] theorem remaining_separate (s : Reader) (b : UInt8) :
    (s.separate b).remaining = s.remaining := rfl

@[simp] theorem remaining_comma (s : Reader) : s.comma.remaining = s.remaining := rfl

@[simp] theorem remaining_colon (s : Reader) : s.colon.remaining = s.remaining := rfl

theorem length_skipBlanks_le (s : Reader) : s.skipBlanks.rest.length ≤ s.rest.length := by
  simp [skipBlanks, advance]

/-- Scanning at the cursor keeps what the reader holds and takes bytes if it succeeds. -/
theorem scanToken_progress {s s' : Reader} {r : Except SyntaxError Token}
    (h : s.scanToken = (r, s')) :
    s'.token = s.token ∧ s'.rest.length ≤ s.rest.length ∧
      (∀ t, r = .ok t → s'.rest.length < s.rest.length) := by
  unfold scanToken at h
  split at h
  · next k n hs =>
    have hp := TokenKind.length_scan_pos hs
    cases h
    refine ⟨rfl, by simp [advance], fun _ _ => ?_⟩
    simp only [advance, List.length_drop]
    omega
  · cases h
    exact ⟨rfl, Nat.le_refl _, fun _ hr => by cases hr⟩

theorem scanUnseparated_progress {s s' : Reader} {r : Except SyntaxError Token}
    (h : s.scanUnseparated = (r, s')) :
    s'.token = s.token ∧ s'.rest.length ≤ s.rest.length ∧
      (∀ t, r = .ok t → s'.rest.length < s.rest.length) := by
  unfold scanUnseparated at h
  dsimp only at h
  have hb := length_skipBlanks_le s
  split at h
  · cases h
    exact ⟨rfl, hb, fun _ hr => by cases hr⟩
  · split at h
    · cases h
      exact ⟨rfl, hb, fun _ hr => by cases hr⟩
    · obtain ⟨ht, hl, ho⟩ := scanToken_progress h
      exact ⟨ht, Nat.le_trans hl hb, fun t hr => Nat.lt_of_lt_of_le (ho t hr) hb⟩

theorem scan_progress {s s' : Reader} {r : Except SyntaxError Token} (h : s.scan = (r, s')) :
    s'.token = s.token ∧ s'.rest.length ≤ s.rest.length ∧
      (∀ t, r = .ok t → s'.rest.length < s.rest.length) := by
  have hb := length_skipBlanks_le s
  cases scanned_of_eq h with
  | unannounced _ h => exact scanUnseparated_progress h
  | separated _ _ _ h =>
    obtain ⟨ht, hl, ho⟩ := scanUnseparated_progress h
    have hd : (s.skipBlanks.advance 1).rest.length ≤ s.rest.length := by
      simp only [advance, List.length_drop]
      omega
    exact ⟨ht, Nat.le_trans hl hd, fun t hr => Nat.lt_of_lt_of_le (ho t hr) hd⟩
  | closed _ _ _ h =>
    obtain ⟨ht, hl, ho⟩ := scanToken_progress h
    exact ⟨ht, Nat.le_trans hl hb, fun t hr => Nat.lt_of_lt_of_le (ho t hr) hb⟩
  | missing _ _ _ h =>
    cases h
    exact ⟨rfl, hb, fun _ hr => by cases hr⟩

/-- Taking a token leaves none behind and lowers what remains if it succeeds. -/
theorem nextToken_progress {s s' : Reader} {r : Except SyntaxError Token}
    (h : s.nextToken = (r, s')) :
    s'.token = none ∧ s'.remaining ≤ s.remaining ∧
      (∀ t, r = .ok t → s'.remaining < s.remaining) := by
  unfold nextToken at h
  split at h
  · next t ht =>
    cases h
    refine ⟨rfl, ?_, fun _ _ => ?_⟩ <;> simp [remaining, ht]
  · next hn =>
    obtain ⟨ht, hl, ho⟩ := scan_progress h
    have hs : s'.token = none := ht.trans hn
    refine ⟨hs, ?_, fun t hr => ?_⟩
    · simp only [remaining, hs, hn]
      omega
    · have := ho t hr
      simp only [remaining, hs, hn]
      omega

/-- A read never raises what remains, and lowers it if it succeeds. -/
def Progress {ε α : Type} (s : Reader) (r : Except ε α × Reader) : Prop :=
  r.2.remaining ≤ s.remaining ∧ (∀ a, r.1 = .ok a → r.2.remaining < s.remaining)

theorem expect_progress {α : Type} (s : Reader) (c : TokenClass) (accept : TokenKind → Option α) :
    Progress s (s.expect c accept) := by
  unfold expect
  split
  · next h =>
    obtain ⟨_, hl, _⟩ := nextToken_progress h
    exact ⟨hl, fun _ hr => by cases hr⟩
  · next t s' h =>
    obtain ⟨hn, _, ho⟩ := nextToken_progress h
    have hlt := ho t rfl
    split
    · exact ⟨Nat.le_of_lt hlt, fun _ _ => hlt⟩
    · refine ⟨?_, fun _ hr => by cases hr⟩
      simp only [remaining, hn] at hlt ⊢
      simp only [Option.toList_some, List.length_cons, List.length_nil, Option.toList_none] at hlt ⊢
      omega

theorem andThen_progress {α β : Type} {s : Reader} {r : Except SyntaxError α × Reader}
    {f : α → Except SyntaxError β} (h : Progress s r) : Progress s (andThen r f) := by
  obtain ⟨hl, ho⟩ := h
  refine ⟨hl, fun b hb => ?_⟩
  obtain ⟨r₁, r₂⟩ := r
  cases r₁ with
  | error e => simp [andThen, Except.bind] at hb
  | ok a => exact ho a rfl

theorem enter_remaining (s : Reader) (t : Token) : (s.enter t).2.remaining = s.remaining := by
  unfold enter
  split <;> rfl

theorem symbol_progress (s : Reader) (b : UInt8) : Progress s (s.symbol b) := by
  have he := expect_progress s (.symbol b) fun k => if k = .symbol b then some () else none
  unfold symbol
  split
  · next h =>
    rw [h] at he
    exact ⟨he.1, fun _ hr => by cases hr⟩
  · next t u s' h =>
    rw [h] at he
    have hlt : s'.remaining < s.remaining := he.2 _ rfl
    have key : ∀ r : Except SyntaxError Unit × Reader, r.2.remaining = s'.remaining →
        Progress s r := fun r hr => ⟨by omega, fun _ _ => by omega⟩
    split
    · exact key _ (enter_remaining s' t)
    · split <;> exact key _ rfl

theorem bool_progress (s : Reader) : Progress s s.bool := andThen_progress (expect_progress ..)

theorem string_progress (s : Reader) : Progress s s.string := andThen_progress (expect_progress ..)

theorem bytes_progress (s : Reader) : Progress s s.bytes := andThen_progress (expect_progress ..)

theorem integer_progress (s : Reader) (k : IntegerKind) : Progress s (s.integer k) :=
  andThen_progress (expect_progress ..)

theorem binary_progress (s : Reader) (fmt : BinaryFormat) : Progress s (s.binary fmt) :=
  andThen_progress (expect_progress ..)

theorem enumReference_progress (s : Reader) : Progress s s.enumReference :=
  andThen_progress (expect_progress ..)

theorem mapKey_progress (s : Reader) (k : KeyKind) : Progress s (s.mapKey k) :=
  andThen_progress (expect_progress ..)

theorem enumeration_progress (s : Reader) (e : EnumType) : Progress s (s.enumeration e) := by
  have h := enumReference_progress s
  unfold enumeration
  split
  · next hr =>
    rw [hr] at h
    exact ⟨h.1, fun _ h' => by cases h'⟩
  all_goals
    next hr =>
    rw [hr] at h
    split
    · exact ⟨h.1, fun _ _ => h.2 _ rfl⟩
    · exact ⟨h.1, fun _ h' => by cases h'⟩

end Reader

end ProtoJson
