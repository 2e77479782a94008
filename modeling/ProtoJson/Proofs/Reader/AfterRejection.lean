import ProtoJson.Proofs.Reader.Enclosure
import ProtoJson.Proofs.Reader.Fallback
import ProtoJson.Proofs.Reader.Rejection

/-!
# Values after a rejected read

A typed read that finds a token of another class keeps the token, and a value is then read from it.
But the cursor stands behind the token already, and recovery counts brackets from the cursor on: the
opening bracket of a container that cannot be read is not counted. So the value that is left for the
next read is the same one, and the place where reading goes on may be within the container.
-/

namespace ProtoJson

/-- A container begins with the token. -/
def TokenClass.Opens (c : TokenClass) : Prop := c = .symbol (ascii '{') ∨ c = .symbol (ascii '[')

theorem TokenKind.opens_iff {k : TokenKind} :
    k.tokenClass.Opens ↔ k = .symbol (ascii '{') ∨ k = .symbol (ascii '[') := by
  cases k <;> simp [tokenClass, TokenClass.Opens]

/-! ## Scanning finds no mismatch -/

theorem TokenKind.keyword_error {word : String} {kind : TokenKind} {text : List UInt8} {f : Fault}
    (h : keyword word kind text = .error f) : f = .invalidLiteral := by
  unfold keyword at h
  dsimp only at h
  split at h <;> cases h
  rfl

theorem TokenKind.scan_error {text : List UInt8} {f : Fault} (h : scan text = .error f)
    (expected found : TokenClass) : f ≠ .unexpectedToken expected found := by
  rintro rfl
  unfold scan at h
  repeat' split at h
  all_goals first | cases h | cases keyword_error h

namespace Reader

open Grammar

variable {s s₀ s₁ s₃ : Reader} {e : SyntaxError} {t : Token}

theorem not_isMismatch_scanToken (h : s.scanToken = (.error e, s₁)) : ¬ e.IsMismatch := by
  unfold scanToken at h
  split at h
  · cases h
  · next hf =>
    cases h
    rintro ⟨expected, found, rfl⟩
    exact TokenKind.scan_error hf expected found rfl

theorem not_isMismatch_scanUnseparated (h : s.scanUnseparated = (.error e, s₁)) :
    ¬ e.IsMismatch := by
  unfold scanUnseparated at h
  dsimp only at h
  split at h
  · cases h
    exact SyntaxError.not_isMismatch fun _ _ h => by cases h
  · split at h
    · cases h
      exact SyntaxError.not_isMismatch fun _ _ h => by cases h
    · exact not_isMismatch_scanToken h

theorem not_isMismatch_scan (h : s.scan = (.error e, s₁)) : ¬ e.IsMismatch := by
  cases scanned_of_eq h with
  | unannounced _ h => exact not_isMismatch_scanUnseparated h
  | separated _ _ _ h => exact not_isMismatch_scanUnseparated h
  | closed _ _ _ h => exact not_isMismatch_scanToken h
  | missing _ _ hfault h =>
    cases h
    exact SyntaxError.not_isMismatch hfault

theorem not_isMismatch_nextToken (h : s.nextToken = (.error e, s₁)) : ¬ e.IsMismatch := by
  unfold nextToken at h
  split at h
  · cases h
  · exact not_isMismatch_scan h

/-- A read that finds a token of another class puts it back. -/
theorem TypedRead.exists_put_back {q : TypedRead} (h : q.run s = (.error (.malformed e), s₁))
    {expected found : TokenClass} (he : e.fault = .unexpectedToken expected found) :
    ∃ t s₀, s.nextToken = (.ok t, s₀) ∧ s₁ = { s₀ with token := some t } ∧
      found = t.kind.tokenClass := by
  have houtcome := q.outcome s
  rw [h] at houtcome
  generalize hres : (Except.error (ReadError.malformed e) : Except ReadError q.Result) = res
    at houtcome
  cases houtcome with
  | unscanned hnext =>
    cases hres
    exact absurd ⟨expected, found, he⟩ (not_isMismatch_nextToken hnext)
  | putBack hnext c =>
    cases hres
    cases he
    exact ⟨_, _, hnext, rfl, rfl⟩
  | taken hnext hno => exact absurd ⟨expected, found, he⟩ (hno e hres.symm)

/-! ## What recovery counts -/

/-- The text that is passed with a token leaves nothing open if the token opens nothing. -/
theorem openSince_token (ht : s.token = none) (hnext : s.nextToken = (.ok t, s₀))
    (hopens : ¬ t.kind.tokenClass.Opens) : s₀.openSince s = 0 := by
  by_cases hclose : ∃ b, t.kind = .symbol b ∧ IsCloser b
  · -- What a closing bracket closes was not opened in the blanks in front of it.
    obtain ⟨b, hk, hb⟩ := hclose
    obtain ⟨w, hadv, -⟩ := advanced_closer ht hnext hk hb
    rw [hadv.openSince_eq, Nesting.openBrackets_eq_past, Nesting.past_append,
      Nesting.past_of_leaves (leaves_blanks w), Nesting.past_cons, Nesting.pass_closer hb]
    rfl
  · have hnot : ∀ b, t.kind = .symbol b → ¬ IsCloser b := fun b hk hb => hclose ⟨b, hk, hb⟩
    obtain ⟨g, x, hadv, hg, hx⟩ := advanced_nextToken ht hnext hnot
    have hleaves : Leaves (g ++ x) [] := by
      rcases hx.opens_or_inert hnot with ⟨b, hb, hk, -⟩ | ⟨howes, -⟩
      · rw [TokenKind.opens_iff, hk] at hopens
        exact absurd (hb.imp (congrArg TokenKind.symbol) (congrArg TokenKind.symbol)) hopens
      · have happend := hg.append (hx.leaves hnot)
        rwa [howes] at happend
    rw [hadv.openSince_eq, Nesting.openBrackets_eq hleaves]
    rfl

/-- Where the brackets within a container are counted, its opening bracket is one more. -/
theorem openSince_opened {b c : UInt8} {g : List UInt8} (hadv : Advanced s s₁ (g ++ [b]))
    (hg : Leaves g []) (hb : b = ascii '{' ∨ b = ascii '[') (hc : Nesting.closing b ≠ c)
    (h : Stays c s₁ s₃) : s₃.peek? = none ∨ s₃.openSince s = s₃.openSince s₁ + 1 := by
  obtain ⟨x, hx, hend⟩ := h
  refine hend.imp_right fun hspares => ?_
  have hopen : Leaves (g ++ [b]) [Nesting.closing b] := hg.append (.opener hb)
  obtain ⟨τ, hτ⟩ := hspares []
  have houter : Nesting.past ⟨[Nesting.closing b], .outside⟩ x
      = ⟨τ ++ [Nesting.closing b], .outside⟩ :=
    hτ [Nesting.closing b] fun hhead => hc (Option.some_inj.1 hhead)
  have hinner : Nesting.past ⟨[], .outside⟩ x = ⟨τ ++ [], .outside⟩ := hτ [] (by simp)
  rw [(hadv.trans hx).openSince_eq, hx.openSince_eq, Nesting.openBrackets_eq_past,
    Nesting.openBrackets_eq_past, Nesting.past_append, Nesting.past_of_leaves hopen, houter, hinner]
  simp

/-- A container that cannot be read, where what it holds is read within it. -/
theorem openSince_container {b c : UInt8} {α β : Type}
    {body : Reader → Except SyntaxError α × Reader} {f : α → β} (ht : s.token = none)
    (hnext : s.nextToken = (.ok t, s₀))
    (hk : t.kind = .symbol b) (hb : b = ascii '{' ∨ b = ascii '[') (hc : Nesting.closing b ≠ c)
    (hbody : ∀ s₂, s₂.token = none → Keeps c (Nesting.closing b) s₂ (body s₂))
    (hfail : chain (s₀.enter t) (fun _ s₂ => chain (body s₂) fun a s₃ => (.ok (f a), s₃))
      = (.error e, s₃)) :
    s₃.peek? = none ∨ s₃.openSince s = s₃.openSince s₀ + 1 := by
  obtain ⟨g, hadv, hg⟩ := advanced_opener ht hnext hk hb
  have htoken : s₀.token = none := (nextToken_progress hnext).1
  rw [enter] at hfail
  split at hfail
  · have hadv' : Advanced s { s₀ with depth := s₀.depth + 1 } (g ++ [b]) :=
      ⟨hadv.options, hadv.offset, hadv.rest⟩
    have hkeeps := hbody { s₀ with depth := s₀.depth + 1 } htoken
    dsimp only [chain] at hfail
    rcases hres : body { s₀ with depth := s₀.depth + 1 } with ⟨e' | a, s₂⟩ <;>
      rw [hres] at hfail hkeeps <;> cases hfail
    exact (openSince_opened hadv' hg hb hc (hkeeps.error e rfl) :)
  · -- Nothing within a container that is nested too deeply has been read.
    cases hfail
    exact openSince_opened hadv hg hb hc ⟨[], .refl s₀, .inr (.of_leaves (σ := []) rfl)⟩

/-- Where an attempt at a value has failed, recovery counts one bracket less if it counts from
behind the first token, and that token opens a container. -/
theorem openSince_attempt (ht : s.token = none) (hnext : s.nextToken = (.ok t, s₀))
    (hfail : s.attempt = (.error e, s₃)) :
    (¬ t.kind.tokenClass.Opens ∧ s₃.openSince s = s₃.openSince s₀) ∨
      (t.kind.tokenClass.Opens ∧
        (s₃.peek? = none ∨ s₃.openSince s = s₃.openSince s₀ + 1)) := by
  rw [attempt_eq_chain, hnext] at hfail
  dsimp only [chain] at hfail
  split at hfail
  · next hbrace =>
    refine .inr ⟨TokenKind.opens_iff.2 (.inl hbrace), ?_⟩
    exact openSince_container ht hnext hbrace (.inl rfl) (by decide)
      (fun s₂ => keepsMembers s₂ []) hfail
  · next hbrace =>
    split at hfail
    · next hbracket =>
      refine .inr ⟨TokenKind.opens_iff.2 (.inr hbracket), ?_⟩
      exact openSince_container ht hnext hbracket (.inr rfl) (by decide)
        (fun s₂ => keepsItems s₂ []) hfail
    · next hbracket =>
      obtain ⟨-, rfl⟩ := Prod.mk.inj hfail
      have hopens : ¬ t.kind.tokenClass.Opens := by
        rw [TokenKind.opens_iff, not_or]
        exact ⟨hbrace, hbracket⟩
      refine .inl ⟨hopens, ?_⟩
      rw [openSince_token ht hnext hopens, (Advanced.refl s₀).openSince_eq]
      rfl

/-! ## Where reading goes on -/

/-- Recovery that counts from behind the first token of a value stops no further on than recovery
that counts from its start. It stops earlier exactly if the token opens a container, and something
is left where it stops. -/
theorem recoverFrom_put_back (ht : s.token = none) (hnext : s.nextToken = (.ok t, s₀))
    (hfail : s.attempt = (.error e, s₃)) :
    (s₃.recoverFrom s₀).offset ≤ (s₃.recoverFrom s).offset ∧
      ((s₃.recoverFrom s₀).offset = (s₃.recoverFrom s).offset ↔
        ¬ t.kind.tokenClass.Opens ∨ (s₃.recoverFrom s₀).rest = []) := by
  have hoffset : ∀ start, (s₃.recoverFrom start).offset
      = s₃.offset + itemLength 0 (s₃.openSince start) .outside s₃.rest := fun _ => rfl
  have hrest : (s₃.recoverFrom s₀).rest
      = s₃.rest.drop (itemLength 0 (s₃.openSince s₀) .outside s₃.rest) := rfl
  have hend : itemLength 0 (s₃.openSince s₀) .outside s₃.rest = s₃.rest.length →
      itemLength 0 (s₃.openSince s) .outside s₃.rest = s₃.rest.length →
      (s₃.recoverFrom s₀).offset = (s₃.recoverFrom s).offset ∧ (s₃.recoverFrom s₀).rest = [] := by
    intro h₀ h
    rw [hoffset, hoffset, hrest, h₀, h]
    exact ⟨rfl, List.drop_length⟩
  rcases openSince_attempt ht hnext hfail with ⟨hopens, hsame⟩ | ⟨hopens, hblank | hone⟩
  · rw [hoffset, hoffset, hsame]
    exact ⟨Nat.le_refl _, iff_of_true rfl (.inl hopens)⟩
  · -- Where only blanks are left, both go on to the end of the input.
    obtain ⟨heq, hnil⟩ := hend (itemLength_of_peek? hblank _) (itemLength_of_peek? hblank _)
    exact ⟨Nat.le_of_eq heq, iff_of_true heq (.inr hnil)⟩
  · have hlt : s₃.openSince s₀ < s₃.openSince s := by omega
    rcases itemLength_lt_or_eq hlt 0 .outside s₃.rest with hearlier | ⟨h₀, h⟩
    · have hle := itemLength_le 0 (s₃.openSince s) .outside s₃.rest
      rw [hoffset, hoffset, hrest]
      refine ⟨by omega, iff_of_false (by omega) ?_⟩
      rintro (hnot | hnil)
      · exact hnot hopens
      · rw [List.drop_eq_nil_iff] at hnil
        omega
    · rw [Nat.zero_add] at h₀ h
      obtain ⟨heq, hnil⟩ := hend h₀ h
      exact ⟨Nat.le_of_eq heq, iff_of_true heq (.inr hnil)⟩

/-- If a typed read finds a token of another class, the same value is read next as without that
read, and as many containers are open after it. The cursor is not moved further than without the
read. It is moved less far exactly if the token opens a container that cannot be read, and something
is left where the cursor stops. -/
theorem TypedRead.value_of_mismatch {q : TypedRead} {expected found : TokenClass}
    (ht : s.token = none) (h : q.run s = (.error (.malformed e), s₁))
    (he : e.fault = .unexpectedToken expected found) :
    s₁.value.1 = s.value.1 ∧ s₁.value.2.depth = s.value.2.depth ∧
      s₁.value.2.offset ≤ s.value.2.offset ∧
      (s₁.value.2.offset = s.value.2.offset ↔
        ¬ found.Opens ∨ (∃ v s₂, s.attempt = (.ok v, s₂)) ∨ s₁.value.2.rest = []) := by
  obtain ⟨t, s₀, hnext, rfl, rfl⟩ := exists_put_back h he
  have hattempt : { s₀ with token := some t }.attempt = s.attempt :=
    attempt_congr ((nextToken_put_back hnext).trans hnext.symm)
  rw [value_eq_attempt, value_eq_attempt, hattempt]
  rcases hres : s.attempt with ⟨e' | v, s₃⟩
  · have hdepth : s₀.depth = s.depth := by
      have hsame := (sameSetting_nextToken s).2
      rwa [hnext] at hsame
    obtain ⟨hle, hiff⟩ := recoverFrom_put_back ht hnext hres
    refine ⟨rfl, hdepth, hle, hiff.trans (or_congr_right ?_)⟩
    exact ⟨.inr, fun h => h.resolve_left fun ⟨_, _, hok⟩ => by cases hok⟩
  · exact ⟨rfl, rfl, Nat.le_refl _, iff_of_true rfl (.inr (.inl ⟨v, s₃, rfl⟩))⟩

/-- An array, and an item after it. -/
def nullArray : Reader := ofBytes (Utf8.ofString "[null], 1") {}

/-- The array can be read, so a read that is rejected at its bracket changes nothing. -/
theorem TypedRead.value_of_mismatch_array : ∃ e s₁,
    TypedRead.bool.run nullArray = (.error (.malformed e), s₁) ∧
      e.fault = .unexpectedToken .bool (.symbol (ascii '[')) ∧
      s₁.value.1 = .array [.null] ∧ s₁.value.2.offset = 6 := by
  obtain ⟨e, s₁, hrun, he⟩ : ∃ e s₁, TypedRead.bool.run nullArray = (.error (.malformed e), s₁) ∧
      e.fault = .unexpectedToken .bool (.symbol (ascii '[')) := ⟨_, _, rfl, rfl⟩
  have hread : nullArray.value = (.array [.null], _) :=
    value_front {} .empty (.array .empty (.cons .empty .null .empty .nil)) (endsValue_comma _)
  have hattempt : nullArray.attempt = _ := attempt_of_value_ne_null (by rw [hread]; simp)
  obtain ⟨hvalue, -, -, hoffset⟩ := value_of_mismatch rfl hrun he
  rw [hread] at hvalue hoffset
  exact ⟨e, s₁, hrun, he, hvalue, hoffset.2 (.inr (.inl ⟨_, _, hattempt⟩))⟩

/-- An object whose first member has no key, and an item after it. -/
def keyless : Reader := ofBytes (Utf8.ofString "\x7b1\x7d,2") {}

/-- Its opening bracket. -/
def keylessBrace : Token := ⟨.symbol (ascii '{'), 0, keyless.rest⟩

/-- The reader behind the bracket. -/
def keylessBody : Reader := { rest := Utf8.ofString "1\x7d,2", offset := 1 }

theorem nextToken_keyless : keyless.nextToken = (.ok keylessBrace, keylessBody) := rfl

theorem attempt_keyless : ∃ e s₃, keyless.attempt = (.error e, s₃) ∧
    s₃.rest = Utf8.ofString "\x7d,2" ∧ s₃.offset = 2 := by
  obtain ⟨e, s₃, hstring, hrest, hoffset⟩ : ∃ e s₃,
      { keylessBody with depth := 1 }.string = (.error e, s₃) ∧
        s₃.rest = Utf8.ofString "\x7d,2" ∧ s₃.offset = 2 := ⟨_, _, rfl, rfl, rfl⟩
  have hmembers : { keylessBody with depth := 1 }.members [] = (.error e, s₃) := by
    rw [members_eq, if_neg (by decide), hstring]
  have henter : keylessBody.enter keylessBrace = (.ok (), { keylessBody with depth := 1 }) := rfl
  refine ⟨e, s₃, ?_, hrest, hoffset⟩
  have hbrace : keylessBrace.kind = .symbol (ascii '{') := rfl
  rw [attempt_eq_chain, nextToken_keyless, chain, if_pos hbrace, henter, chain, hmembers]
  rfl

/-- After a read that is rejected at the object, the cursor stops in front of the bracket that
closes the object itself. Without that read it stops in front of the comma. -/
theorem TypedRead.value_keyless : ∃ e s₁,
    TypedRead.null.run keyless = (.error (.malformed e), s₁) ∧
      e.fault = .unexpectedToken .null (.symbol (ascii '{')) ∧
      keyless.value.2.offset = 3 ∧ s₁.value.2.offset = 2 := by
  obtain ⟨e, s₃, hattempt, hrest, hoffset⟩ := attempt_keyless
  have hattempt' : { keylessBody with token := some keylessBrace }.attempt = (.error e, s₃) :=
    (attempt_congr ((nextToken_put_back nextToken_keyless).trans nextToken_keyless.symm)).trans
      hattempt
  have hstop : ∀ start, (s₃.recoverFrom start).offset
      = s₃.offset + itemLength 0 (s₃.openSince start) .outside s₃.rest := fun _ => rfl
  refine ⟨keylessBrace.error (.unexpectedToken .null (.symbol (ascii '{'))),
    { keylessBody with token := some keylessBrace }, rfl, rfl, ?_, ?_⟩
  · rw [value_eq_attempt, hattempt]
    dsimp only
    rw [hstop, openSince, hrest, hoffset]
    decide
  · rw [value_eq_attempt, hattempt']
    dsimp only
    rw [hstop, openSince, hrest, hoffset]
    decide

end Reader

end ProtoJson
