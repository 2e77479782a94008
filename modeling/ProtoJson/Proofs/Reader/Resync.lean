import ProtoJson.Proofs.Reader.Induction
import ProtoJson.Proofs.Reader.Nesting

/-!
# Where recovery stops

A read never leaves the brackets that it stands in. So when a value cannot be read, the brackets
that were opened since its start are closed further on in its own text, and the scan over the rest
of that text ends where the text does.
-/

namespace ProtoJson.Reader

open Grammar

/-- What a value is read as, or the error that it is given up for. The reader is then left where
the error was found. -/
def attempt (s : Reader) : Except SyntaxError Value × Reader :=
  match s.nextToken with
  | (.error e, s₁) => (.error e, s₁)
  | (.ok t, s₁) =>
    if t.kind = .symbol (ascii '{') then
      match s₁.enter t with
      | (.error e, s₂) => (.error e, s₂)
      | (.ok _, s₂) => ((s₂.members []).1.map .object, (s₂.members []).2)
    else if t.kind = .symbol (ascii '[') then
      match s₁.enter t with
      | (.error e, s₂) => (.error e, s₂)
      | (.ok _, s₂) => ((s₂.items []).1.map .array, (s₂.items []).2)
    else (tokenValue s₁ t, s₁)

variable {s s' s₁ s₂ : Reader} {c : UInt8} {r text x y σ τ : List UInt8}

/-- A value is what can be read, and where nothing can be read, recovery starts over. -/
theorem value_eq_attempt (s : Reader) : s.value =
    match s.attempt with
    | (.ok v, s₁) => (v, s₁)
    | (.error _, s₁) => (.null, s₁.recoverFrom s) := by
  rw [value_eq, attempt]
  rcases s.nextToken with ⟨e | t, s₁⟩
  · rfl
  · dsimp only
    split
    · rcases s₁.enter t with ⟨e | u, s₂⟩
      · rfl
      · dsimp only
        rcases s₂.members [] with ⟨e | ms, s₃⟩ <;> rfl
    · split
      · rcases s₁.enter t with ⟨e | u, s₂⟩
        · rfl
        · dsimp only
          rcases s₂.items [] with ⟨e | vs, s₃⟩ <;> rfl
      · rcases tokenValue s₁ t with e | v <;> rfl

/-- Only `null` stands for a value that cannot be read. -/
theorem attempt_of_value_ne_null (h : s.value.1 ≠ .null) :
    s.attempt = (.ok s.value.1, s.value.2) := by
  rw [value_eq_attempt] at h ⊢
  rcases hres : s.attempt with ⟨e | v, s₁⟩
  · rw [hres] at h
    exact absurd rfl h
  · rfl

/-! ## Moves of the cursor -/

/-- From `s` to `s'` the cursor has moved over `x`. -/
structure Advanced (s s' : Reader) (x : List UInt8) : Prop where
  options : s'.options = s.options
  offset : s'.offset = s.offset + x.length
  rest : s.rest = x ++ s'.rest

theorem Advanced.trans (h : Advanced s s₁ x) (h' : Advanced s₁ s₂ y) : Advanced s s₂ (x ++ y) where
  options := h'.options.trans h.options
  offset := by
    rw [h'.offset, h.offset, List.length_append, Nat.add_assoc]
  rest := by
    rw [h.rest, h'.rest, List.append_assoc]

theorem advanced_goTo {d : Nat} (h : s.rest = x ++ r) : Advanced s (s.goTo r d) x where
  options := rfl
  offset := by simp [goTo, h]
  rest := h

theorem Advanced.eq_goTo (h : Advanced s s' x) (ht : s'.token = none) (hp : s'.pending = none) :
    s' = s.goTo s'.rest s'.depth := by
  have hlen : s.rest.length - s'.rest.length = x.length := by simp [h.rest]
  obtain ⟨options, rest, offset, token, pending, depth⟩ := s'
  cases ht
  cases hp
  cases h.options
  have hoffset : offset = s.offset + x.length := h.offset
  rw [goTo, hlen, ← hoffset]

theorem Advanced.openSince_eq (h : Advanced s s' x) :
    s'.openSince s = (openBrackets [] .outside x).length := by
  have hlen : s'.offset - s.offset = x.length := by
    rw [h.offset]
    omega
  rw [openSince, hlen, h.rest, List.take_left]

theorem advanced_skipBlanks (s : Reader) : ∃ w : Blanks, Advanced s s.skipBlanks w.bytes := by
  obtain ⟨w, hrest, hskip⟩ := skipBlanks_inv s
  exact ⟨w, by rw [hskip]; rfl, by rw [hskip]; rfl, hrest⟩

/-- The reader `s'` stands within the text in front of `s`, where `σ` is owed. -/
def Reaches (s s' : Reader) (text σ : List UInt8) : Prop :=
  ∃ x y, text = x ++ y ∧ Advanced s s' x ∧ Leaves x σ

/-- Recovery stops within the text that the reader stands in: where the brackets that were opened
since `start` have been closed, in front of a comma or at the end of the text. -/
theorem recoverFrom_within {start : Reader} (hrest : start.rest = x ++ (y ++ r))
    (hmatched : Leaves (x ++ y) []) (hr : StopsItem r) (hadv : Advanced start s x)
    (hx : Leaves x σ) :
    ∃ z y', y = z ++ y' ∧ Leaves (x ++ z) [] ∧ (y' = [] ∨ ∃ w, y' = ascii ',' :: w) ∧
      s.recoverFrom start = start.goTo (y' ++ r) start.depth := by
  have hsrest : s.rest = y ++ r := List.append_cancel_left (hadv.rest.symm.trans hrest)
  -- The first scan goes over `x`, the second one over what is left of the text.
  have hopen : s.openSince start = σ.length := by
    rw [hadv.openSince_eq, Nesting.openBrackets_eq hx]
  obtain ⟨z, y', rfl, hz, hy', hlen⟩ := Nesting.exists_itemLength (p := 0) (hmatched.rest hx) hr
  refine ⟨z, y', rfl, ?_, hy', ?_⟩
  · rw [Leaves, Nesting.after?_append, hx]
    exact hz
  · have hadvance : Advanced start (s.advance z.length) (x ++ z) := by
      refine hadv.trans ⟨rfl, rfl, ?_⟩
      simp [advance, hsrest]
    have hrest' : (s.advance z.length).rest = y' ++ r := by simp [advance, hsrest]
    rw [recoverFrom, hopen, hsrest, hlen, Nat.zero_add]
    have hadv' : Advanced start { s.advance z.length with
        token := none, pending := none, depth := start.depth } (x ++ z) :=
      ⟨hadvance.options, hadvance.offset, hadvance.rest⟩
    rw [← hrest']
    exact hadv'.eq_goTo rfl rfl

/-! ## Texts in front of a reader -/

/-- A reader that keeps no token has `text` in front of it and then `stop`, which ends an item. A
comma can be announced only if there is an item to read. -/
structure Faces (s : Reader) (text : List UInt8) (stop : UInt8) (r : List UInt8) : Prop where
  token : s.token = none
  rest : s.rest = text ++ stop :: r
  matched : Leaves text []
  stops : stop = ascii ',' ∨ IsCloser stop
  pending : s.pending = none ∨ IsCloser stop ∧ (s.pending = some (ascii ':') ∨
    s.pending = some (ascii ',') ∧ ∃ b ∈ text, isBlank b = false)

theorem Faces.stopsItem (h : s.Faces text c r) : StopsItem (c :: r) := ⟨c, r, rfl, h.stops⟩

/-- A text is blank, or it has a first byte that is not. -/
theorem blank_or_cons (text : List UInt8) :
    (∃ w : Blanks, text = w.bytes) ∨
      ∃ (w : Blanks) (b : UInt8) (x : List UInt8),
        text = w.bytes ++ b :: x ∧ isBlank b = false := by
  have happend : text = (Blanks.front text).bytes ++ text.dropWhile isBlank :=
    List.takeWhile_append_dropWhile.symm
  cases hd : text.dropWhile isBlank with
  | nil =>
    rw [hd, List.append_nil] at happend
    exact .inl ⟨_, happend⟩
  | cons b x =>
    refine .inr ⟨_, b, x, hd ▸ happend, ?_⟩
    have hb := List.head?_dropWhile_not isBlank text
    rw [hd] at hb
    simpa using hb

/-- Blanks leave nothing open. -/
theorem leaves_blanks (w : Blanks) : Leaves w.bytes [] :=
  .of_unmarked fun b hb => (isInert_of_blank b (w.blank b hb)).toIsUnmarked

/-- What an item is ended by is no blank. -/
theorem not_blank_of_stops (hc : c = ascii ',' ∨ IsCloser c) : isBlank c = false := by
  rcases hc with rfl | rfl | rfl <;> decide

/-! ## The first token of a text -/

/-- A scan that fails has passed blanks at most. -/
theorem scanUnseparated_error {e : SyntaxError} (h : s.scanUnseparated = (.error e, s')) :
    s' = s.skipBlanks := by
  unfold scanUnseparated at h
  dsimp only at h
  split at h
  · cases h
    rfl
  · split at h
    · cases h
      rfl
    · rw [scanToken] at h
      split at h
      · cases h
      · cases h
        rfl

/-- Where nothing is announced, no closing bracket is taken. -/
theorem scanUnseparated_not_closer {t : Token} {b : UInt8} (h : s.scanUnseparated = (.ok t, s'))
    (hk : t.kind = .symbol b) : ¬ IsCloser b := by
  intro hb
  obtain ⟨w, x, rest, hrest, -, hspells⟩ := scanUnseparated_inv h
  rw [hk] at hspells
  obtain rfl := hspells.bracket_eq
  have hblank : isBlank b = false := not_blank_of_stops (.inr hb)
  have hskip : s.skipBlanks.rest = b :: rest := by
    rw [skipBlanks_eq w hrest hblank]
    simp [advance, hrest]
  unfold scanUnseparated at h
  dsimp only at h
  rw [hskip] at h
  dsimp only at h
  rw [if_pos (.inr (.inr hb))] at h
  cases h

/-- A closing bracket is taken only in place of an announced comma. -/
theorem nextToken_closer_inv {t : Token} {b : UInt8} (ht : s.token = none)
    (h : s.nextToken = (.ok t, s')) (hk : t.kind = .symbol b) (hb : IsCloser b) :
    s.pending = some (ascii ',') ∧ ∃ (w : Blanks) (x : List UInt8), s.rest = w.bytes ++ b :: x := by
  rw [nextToken, ht] at h
  cases scanned_of_eq h with
  | unannounced _ h => exact absurd hb (scanUnseparated_not_closer h hk)
  | separated _ _ _ h => exact absurd hb (scanUnseparated_not_closer h hk)
  | @closed b' x hb' hp hr h =>
    cases scanToken_of_closer hb' h hr
    cases hk
    obtain ⟨w, hfront, -⟩ := skipBlanks_inv s
    rw [hr] at hfront
    exact ⟨hp, w, x, hfront⟩
  | missing _ _ _ h => cases h

/-- What a reader passes before it fails to take a token: blanks, or all that stands between it and
the token. -/
theorem nextToken_error_inv {e : SyntaxError} (ht : s.token = none)
    (h : s.nextToken = (.error e, s')) :
    ∃ g, Advanced s s' g ∧ ((∃ w : Blanks, g = w.bytes) ∨ Gap s.pending g) := by
  obtain ⟨v, hv⟩ := advanced_skipBlanks s
  -- The reader stops in front of the first byte that is no blank, unless that is the separator.
  rw [nextToken, ht] at h
  cases scanned_of_eq h with
  | unannounced _ h =>
    rw [scanUnseparated_error h]
    exact ⟨_, hv, .inl ⟨v, rfl⟩⟩
  | @separated c x hc hp hr h =>
    obtain ⟨w, hw⟩ := advanced_skipBlanks { s.skipBlanks.advance 1 with pending := none }
    have hone : Advanced s.skipBlanks { s.skipBlanks.advance 1 with pending := none } [c] :=
      ⟨rfl, rfl, by simp [advance, hr]⟩
    rw [scanUnseparated_error h]
    refine ⟨_, hv.trans (hone.trans hw), .inr ?_⟩
    rw [hp]
    exact .separated v w hc
  | closed hb _ hr h => cases scanToken_of_closer hb h hr
  | missing _ _ _ h =>
    cases h
    exact ⟨_, hv, .inl ⟨v, rfl⟩⟩

namespace Faces

/-- What stands in front of a token belongs to the text. -/
theorem gap {g : List UInt8} (h : s.Faces text c r) (hrest : s.rest = g ++ x)
    (hg : (∃ w : Blanks, g = w.bytes) ∨ Gap s.pending g) :
    (∃ y, text = g ++ y ∧ x = y ++ c :: r) ∧ Leaves g [] := by
  have hblanks : ∀ w : Blanks, c ∉ w.bytes := fun w hmem => by
    have hc := not_blank_of_stops h.stops
    rw [w.blank c hmem] at hc
    cases hc
  have hunmarked : ∀ b ∈ g, IsUnmarked b := by
    rcases hg with ⟨w, rfl⟩ | hg
    · exact fun b hb => (isInert_of_blank b (w.blank b hb)).toIsUnmarked
    · exact hg.unmarked
  have hmem : c ∉ g := by
    intro hmem
    rcases hg with ⟨w, rfl⟩ | hg
    · exact hblanks w hmem
    · rcases h.pending with hp | ⟨hclose, -⟩
      · rw [hp] at hg
        cases hg with
        | free w => exact hblanks w hmem
      · have hc := hunmarked c hmem
        exact hclose.elim hc.closeBrace hc.closeBracket
  refine ⟨(append_eq_append_cons (hrest.symm.trans h.rest)).resolve_right ?_,
    .of_unmarked hunmarked⟩
  rintro ⟨z, rfl⟩
  exact hmem (by simp)

/-- No closing bracket is taken from a text that is matched. -/
theorem not_closer {t : Token} {b : UInt8} (h : s.Faces text c r)
    (hnext : s.nextToken = (.ok t, s₁)) (hk : t.kind = .symbol b) : ¬ IsCloser b := by
  intro hb
  obtain ⟨hp, w, x, hrest⟩ := nextToken_closer_inv h.token hnext hk hb
  -- A comma is announced, so the text has a byte that is no blank, and `b` would be the first.
  obtain ⟨a, ha, hblank⟩ : ∃ a ∈ text, isBlank a = false := by
    rcases h.pending with hp' | ⟨-, hp' | ⟨-, ha⟩⟩
    · rw [hp] at hp'
      cases hp'
    · rw [hp] at hp'
      cases hp'
    · exact ha
  obtain ⟨⟨y, rfl, hy⟩, hw⟩ := h.gap hrest (.inl ⟨w, rfl⟩)
  cases y with
  | nil =>
    rw [List.append_nil] at ha
    rw [w.blank a ha] at hblank
    cases hblank
  | cons b' y =>
    obtain ⟨rfl, -⟩ := List.cons.inj hy
    exact h.matched.not_closer hw hb

theorem nextToken_error {e : SyntaxError} (h : s.Faces text c r)
    (hnext : s.nextToken = (.error e, s₁)) : Reaches s s₁ text [] := by
  obtain ⟨g, hadv, hg⟩ := nextToken_error_inv h.token hnext
  obtain ⟨⟨y, htext, -⟩, hleaves⟩ := h.gap hadv.rest hg
  exact ⟨g, y, htext, hadv, hleaves⟩

/-- A token is taken as a whole from the text that it begins in. -/
theorem nextToken_ok {t : Token} (h : s.Faces text c r) (hnext : s.nextToken = (.ok t, s₁)) :
    Reaches s s₁ text t.kind.owes ∧ s₁ = s.goTo s₁.rest s.depth := by
  rcases nextToken_inv h.token hnext with ⟨x, rest, hahead, rfl, hspells⟩ | ⟨b, hk, hb⟩
  · obtain ⟨g, hg, hrest⟩ := hahead.gap
    obtain ⟨⟨y, rfl, hy⟩, hleaves⟩ := h.gap hrest (.inr hg)
    have hmatched : Leaves y [] := h.matched.rest hleaves
    obtain ⟨⟨z, rfl, -⟩, hx⟩ :=
      hspells.within (fun b hk => h.not_closer hnext hk) hmatched h.stops hy
    refine ⟨⟨g ++ x, z, by simp, advanced_goTo (by rw [hrest, List.append_assoc]), ?_⟩, rfl⟩
    have happend := hleaves.append hx
    rwa [List.append_nil] at happend
  · exact absurd hb (h.not_closer hnext hk)

/-- A string that is read belongs to the text, and so does what is passed where none can be
read. -/
theorem string (h : s.Faces text c r) :
    (∃ key s₁, s.string = (.ok key, s₁) ∧ Reaches s s₁ text [] ∧ s₁ = s.goTo s₁.rest s.depth) ∨
      ∃ e s₁ σ, s.string = (.error e, s₁) ∧ Reaches s s₁ text σ := by
  rw [Reader.string, expect]
  rcases hnext : s.nextToken with ⟨e | t, s₁⟩
  · exact .inr ⟨e, s₁, [], rfl, h.nextToken_error hnext⟩
  · obtain ⟨hreach, hgo⟩ := h.nextToken_ok hnext
    dsimp only
    cases hk : t.kind with
    | string raw escaped =>
      rw [hk] at hreach
      dsimp only [TokenKind.string?, andThen]
      cases htext : t.text? s.options raw escaped with
      | error e => exact .inr ⟨e, s₁, [], congrArg (·, s₁) htext, hreach⟩
      | ok key => exact .inl ⟨key, s₁, congrArg (·, s₁) htext, hreach, hgo⟩
    | _ =>
      -- A token of another class is kept, and the cursor stands after it.
      obtain ⟨x, y, htext, hadv, hx⟩ := hreach
      exact .inr ⟨_, _, _, rfl, x, y, htext, ⟨hadv.options, hadv.offset, hadv.rest⟩, hx⟩

end Faces

/-! ## Reads stay within their brackets -/

/-- A reader within a container, of which `text` is left in front of the closing bracket. -/
structure Inside (s : Reader) (text : List UInt8) (closer : UInt8) (r : List UInt8) : Prop where
  token : s.token = none
  pending : s.pending = none ∨ s.pending = some (ascii ',')
  rest : s.rest = text ++ closer :: r
  matched : Leaves text []
  isCloser : IsCloser closer

/-- Either the container is closed, or there is something to read in it. -/
theorem Inside.close_or_faces (h : s.Inside text c r) :
    (s.atSymbol c = true ∧ ∀ {α : Type} (content : α),
      s.close c content = (.ok content, s.goTo r (s.depth - 1))) ∨
    (s.atSymbol c = false ∧ s.peek?.isSome = true ∧ s.Faces text c r) := by
  rcases blank_or_cons text with ⟨w, rfl⟩ | ⟨w, b, x, rfl, hb⟩
  · left
    have hc : isBlank c = false := not_blank_of_stops (.inr h.isCloser)
    rw [atSymbol_eq w h.token h.rest hc]
    exact ⟨beq_self_eq_true c, fun content => close_eq content w h.isCloser h.token h.rest⟩
  · right
    have hrest : s.rest = w.bytes ++ b :: (x ++ c :: r) := by simp [h.rest]
    have hne : b ≠ c := by
      rintro rfl
      exact h.matched.not_closer (leaves_blanks w) h.isCloser
    rw [atSymbol_eq w h.token hrest hb, peek?_eq w hrest hb]
    refine ⟨beq_eq_false_iff_ne.2 hne, rfl, h.token, h.rest, h.matched, .inr h.isCloser, ?_⟩
    rcases h.pending with hp | hp
    · exact .inl hp
    · exact .inr ⟨h.isCloser, .inr ⟨hp, b, by simp, hb⟩⟩

/-- After an item, the loop over a container goes on within what is left of it. -/
theorem Inside.next (h : s.Inside (x ++ y) c r) (hx : Leaves x []) :
    (s.goTo (y ++ c :: r) s.depth).comma.Inside y c r ∧
      Advanced s (s.goTo (y ++ c :: r) s.depth).comma x ∧
      ∀ d, (s.goTo (y ++ c :: r) s.depth).comma.goTo r d = s.goTo r d := by
  have hrest : s.rest = x ++ (y ++ c :: r) := by simp [h.rest]
  have hadv := advanced_goTo (d := s.depth) hrest
  refine ⟨⟨rfl, .inr rfl, rfl, h.matched.rest hx, h.isCloser⟩,
    ⟨hadv.options, hadv.offset, hadv.rest⟩, fun d => ?_⟩
  rw [goTo_comma]
  exact goTo_goTo (by simp [hrest]) (by simp only [List.length_append, List.length_cons]; omega)

/-- The value of a member is read within the object. -/
theorem faces_colon {d : Nat} (hy : Leaves y []) (hc : IsCloser c) :
    (s.goTo (y ++ c :: r) d).colon.Faces y c r :=
  ⟨rfl, rfl, hy, .inr hc, .inr ⟨hc, .inl rfl⟩⟩

/-- A container that is opened in the text is closed in it. What can be reached within the container
can be reached within the text, and after the container nothing is owed. -/
theorem Faces.enter {t : Token} {b : UInt8} (h : s.Faces text c r)
    (hnext : s.nextToken = (.ok t, s₁)) (hk : t.kind = .symbol b) :
    (∃ e s₂ σ, s₁.enter t = (.error e, s₂) ∧ Reaches s s₂ text σ) ∨
      ∃ s₂ y r', s₁.enter t = (.ok (), s₂) ∧ s₂.Inside y (Nesting.closing b) r' ∧
        s₂.goTo r' (s₂.depth - 1) = s.goTo r' s.depth ∧ Reaches s (s.goTo r' s.depth) text [] ∧
        ∀ s₃ σ, Reaches s₂ s₃ y σ → ∃ σ', Reaches s s₃ text σ' := by
  obtain ⟨⟨x, rest, rfl, hadv, hx⟩, hgo⟩ := h.nextToken_ok hnext
  rw [hk] at hx
  rw [Reader.enter]
  by_cases hd : s₁.depth < maxDepth
  · right
    -- The bracket is owed, so the text goes on to the one that closes the container.
    obtain ⟨y, z, rfl, hy, hz⟩ := h.matched.exists_close hx
    have hrest : s.rest = x ++ (y ++ Nesting.closing b :: (z ++ c :: r)) := by simp [h.rest]
    have hs₁ : s₁.rest = y ++ Nesting.closing b :: (z ++ c :: r) :=
      List.append_cancel_left (hadv.rest.symm.trans hrest)
    rw [hs₁] at hgo
    subst hgo
    refine ⟨s.goTo (y ++ Nesting.closing b :: (z ++ c :: r)) (s.depth + 1), y, z ++ c :: r,
      if_pos hd, ⟨rfl, .inl rfl, rfl, hy, Nesting.isCloser_closing⟩, ?_, ?_, ?_⟩
    · exact goTo_goTo (by simp [hrest]) (by simp only [List.length_append, List.length_cons]; omega)
    · refine ⟨x ++ (y ++ [Nesting.closing b]), z, by simp, advanced_goTo (by simp [hrest]), ?_⟩
      rw [← List.append_assoc]
      exact (hx.append hy).close Nesting.isCloser_closing
    · intro s₃ σ hreach
      refine ⟨σ ++ [Nesting.closing b], ?_⟩
      obtain ⟨x', y', rfl, hadv', hx'⟩ := hreach
      exact ⟨x ++ x', y' ++ Nesting.closing b :: z, by simp,
        (advanced_goTo hrest).trans hadv', hx.append hx'⟩
  · left
    exact ⟨_, s₁, _, if_neg hd, x, rest, rfl, hadv, hx⟩

/-- An attempt at a value stays within the text that the value begins in. If it succeeds, nothing
that it has opened is left open. -/
abbrev AttemptWithin (s : Reader) : Prop := ∀ text c r, s.Faces text c r →
  (∃ v s₁, s.attempt = (.ok v, s₁) ∧ Reaches s s₁ text [] ∧ s₁ = s.goTo s₁.rest s.depth) ∨
    ∃ e s₁ σ, s.attempt = (.error e, s₁) ∧ Reaches s s₁ text σ

/-- The members of an object are read up to its closing bracket, or up to a key that cannot be
read. -/
abbrev MembersWithin (s : Reader) (before : List (String × Value)) : Prop :=
  ∀ text r, s.Inside text (ascii '}') r →
    (∃ ms, s.members before = (.ok ms, s.goTo r (s.depth - 1))) ∨
      ∃ e s₁ σ, s.members before = (.error e, s₁) ∧ Reaches s s₁ text σ

/-- The items of an array are read up to its closing bracket. -/
abbrev ItemsWithin (s : Reader) (before : List Value) : Prop := ∀ text r,
  s.Inside text (ascii ']') r → ∃ vs, s.items before = (.ok vs, s.goTo r (s.depth - 1))

/-- A value ends within the text that it begins in, whether it can be read or not. -/
theorem AttemptWithin.value (hin : AttemptWithin s) (h : s.Faces text c r) :
    ∃ x y, text = x ++ y ∧ Leaves x [] ∧ s.value.2 = s.goTo (y ++ c :: r) s.depth := by
  rw [value_eq_attempt]
  rcases hin text c r h with ⟨v, s₁, hv, ⟨x, y, rfl, hadv, hx⟩, hgo⟩ | ⟨e, s₁, σ, he, hreach⟩
  · have hrest := hadv.rest
    rw [h.rest, List.append_assoc, List.append_cancel_left_eq] at hrest
    rw [hv, hgo, ← hrest]
    exact ⟨x, y, rfl, hx, rfl⟩
  · -- Recovery closes what is owed where the attempt has failed.
    obtain ⟨x, y, rfl, hadv, hx⟩ := hreach
    obtain ⟨z, y', rfl, hz, -, hrec⟩ := recoverFrom_within
      (h.rest.trans (List.append_assoc ..)) h.matched h.stopsItem hadv hx
    rw [he]
    exact ⟨x ++ z, y', by simp, hz, hrec⟩

/-- An attempt at a value, where the reads within the value stay within their brackets. -/
theorem attemptWithin_of_contents (hin : ∀ t s₁ s₂, s.nextToken = (.ok t, s₁) →
    s₁.enter t = (.ok (), s₂) → MembersWithin s₂ [] ∧ ItemsWithin s₂ []) : AttemptWithin s := by
  intro text c r h
  rw [attempt]
  rcases hnext : s.nextToken with ⟨e | t, s₁⟩
  · exact .inr ⟨e, s₁, [], rfl, h.nextToken_error hnext⟩
  · dsimp only
    by_cases hbrace : t.kind = .symbol (ascii '{')
    · rw [if_pos hbrace]
      rcases h.enter hnext hbrace with ⟨e, s₂, σ, henter, hreach⟩ |
        ⟨s₂, y, r', henter, hinside, hgo, hclosed, hwithin⟩
      · exact .inr ⟨e, s₂, σ, by rw [henter], hreach⟩
      · rw [henter]
        dsimp only
        rcases (hin t s₁ s₂ hnext henter).1 y r' hinside with ⟨ms, hms⟩ | ⟨e, s₃, σ, he, hreach⟩
        · rw [hms, hgo]
          exact .inl ⟨_, _, rfl, hclosed, rfl⟩
        · rw [he]
          obtain ⟨σ', hreach'⟩ := hwithin s₃ σ hreach
          exact .inr ⟨e, s₃, σ', rfl, hreach'⟩
    · rw [if_neg hbrace]
      by_cases hbracket : t.kind = .symbol (ascii '[')
      · rw [if_pos hbracket]
        rcases h.enter hnext hbracket with ⟨e, s₂, σ, henter, hreach⟩ |
          ⟨s₂, y, r', henter, hinside, hgo, hclosed, -⟩
        · exact .inr ⟨e, s₂, σ, by rw [henter], hreach⟩
        · rw [henter]
          dsimp only
          obtain ⟨vs, hvs⟩ := (hin t s₁ s₂ hnext henter).2 y r' hinside
          rw [hvs, hgo]
          exact .inl ⟨_, _, rfl, hclosed, rfl⟩
      · rw [if_neg hbracket]
        obtain ⟨hreach, hgo⟩ := h.nextToken_ok hnext
        cases hv : s₁.tokenValue t with
        | error e => exact .inr ⟨e, s₁, _, rfl, hreach⟩
        | ok v =>
          -- Only tokens that are no symbols have a value of their own.
          have howes : t.kind.owes = [] := by
            cases hk : t.kind with
            | symbol b =>
              rw [tokenValue, hk] at hv
              cases hv
            | _ => rfl
          rw [howes] at hreach
          exact .inl ⟨v, s₁, rfl, hreach, hgo⟩

/-- The members of an object, where the values and the members behind them stay within it. -/
theorem membersWithin_of_values {before : List (String × Value)}
    (hin : ∀ key s₁, s.string = (.ok key, s₁) →
      AttemptWithin s₁.colon ∧ ∀ ms, MembersWithin s₁.colon.value.2.comma ms) :
    MembersWithin s before := by
  intro text r h
  rw [members_eq]
  rcases h.close_or_faces with ⟨hat, hclose⟩ | ⟨hat, -, hfaces⟩
  · rw [if_pos hat, hclose]
    exact .inl ⟨before, rfl⟩
  · rw [if_neg (by simp [hat])]
    rcases hfaces.string with ⟨key, s₁, hkey, ⟨x, y, rfl, hadv, hx⟩, hgo⟩ | ⟨e, s₁, σ, he, hreach⟩
    · obtain ⟨hvalue, hmembers⟩ := hin key s₁ hkey
      have hrest := hadv.rest
      rw [h.rest, List.append_assoc, List.append_cancel_left_eq] at hrest
      rw [← hrest] at hgo
      have hy : Leaves y [] := h.matched.rest hx
      obtain ⟨x', y', rfl, hx', hv⟩ := hvalue.value (hgo ▸ faces_colon hy (.inl rfl))
      have hs₂ : s₁.colon.value.2 = s.goTo (y' ++ ascii '}' :: r) s.depth := by
        rw [hv, hgo, goTo_colon, depth_colon, depth_goTo, goTo_goTo (by simp [h.rest]) (by simp)]
      -- The key and the value are passed, and the rest of the members stands in what is left.
      rw [← List.append_assoc] at h
      obtain ⟨hinside, hadv', hgo'⟩ := h.next (hx.append hx')
      rw [← hs₂] at hinside hadv' hgo'
      rw [hkey]
      dsimp only
      rcases hmembers (Value.insertMember key s₁.colon.value.1 before) y' r hinside with
        ⟨ms, hms⟩ | ⟨e, s₃, σ, he, hreach⟩
      · refine .inl ⟨ms, ?_⟩
        rw [hms, hgo', hs₂]
        rfl
      · obtain ⟨x'', y'', rfl, hadv'', hx''⟩ := hreach
        refine .inr ⟨e, s₃, σ, he, x ++ x' ++ x'', y'', by simp, hadv'.trans hadv'', ?_⟩
        simpa using (hx.append hx').append hx''
    · exact .inr ⟨e, s₁, σ, by rw [he], hreach⟩

/-- The items of an array, where the first one and the items behind it stay within it. -/
theorem itemsWithin_of_values {before : List Value} (hin : s.peek?.isSome →
    AttemptWithin s ∧ ∀ vs, ItemsWithin s.value.2.comma vs) : ItemsWithin s before := by
  intro text r h
  rw [items_eq]
  rcases h.close_or_faces with ⟨hat, hclose⟩ | ⟨hat, hpeek, hfaces⟩
  · rw [if_pos hat, hclose]
    exact ⟨_, rfl⟩
  · rw [if_neg (by simp [hat]), if_pos hpeek]
    -- The value ends within the list, and the loop goes on behind it.
    obtain ⟨hvalue, hitems⟩ := hin hpeek
    obtain ⟨x, y, rfl, hx, hv⟩ := hvalue.value hfaces
    obtain ⟨hinside, -, hgo⟩ := h.next hx
    rw [← hv] at hinside hgo
    obtain ⟨vs, hvs⟩ := hitems (s.value.1 :: before) y r hinside
    refine ⟨vs, hvs.trans ?_⟩
    rw [hgo, hv]
    rfl

theorem passesOn_within : PassesOn AttemptWithin MembersWithin ItemsWithin where
  value _ hin := attemptWithin_of_contents hin
  members _ _ hin := membersWithin_of_values hin
  items _ _ hin := itemsWithin_of_values hin

/-- Where a value begins in a text, an attempt at it ends there. -/
theorem Faces.attempt (h : s.Faces text c r) :
    (∃ v s₁, s.attempt = (.ok v, s₁) ∧ Reaches s s₁ text [] ∧ s₁ = s.goTo s₁.rest s.depth) ∨
      ∃ e s₁ σ, s.attempt = (.error e, s₁) ∧ Reaches s s₁ text σ :=
  passesOn_within.value_all s text c r h

/-! ## A value that cannot be read -/

/-- Blanks that are passed before a token may be passed at once. -/
theorem scanUnseparated_blanks (w : Blanks) (h : s.rest = w.bytes ++ x) :
    s.scanUnseparated = (s.advance w.bytes.length).scanUnseparated := by
  have hskip : s.skipBlanks = (s.advance w.bytes.length).skipBlanks := by
    have hrest : (s.advance w.bytes.length).rest = x := by simp [advance, h]
    have hlen : (s.rest.takeWhile isBlank).length
        = w.bytes.length + (x.takeWhile isBlank).length := by
      rw [h, List.takeWhile_append_of_pos w.blank, List.length_append]
    rw [skipBlanks, skipBlanks, hrest, hlen]
    simp [advance, Nat.add_assoc]
  rw [scanUnseparated, scanUnseparated, hskip]

/-- A reader that has passed what is announced takes the same token. -/
theorem nextToken_ahead (h : s.Ahead text) : s.nextToken = (s.goTo text s.depth).nextToken := by
  obtain ⟨ht, g, hg, hrest⟩ := h
  show _ = (s.goTo text s.depth).scanUnseparated
  rw [nextToken, ht, ← advance_eq_goTo hrest]
  dsimp only
  generalize hp : s.pending = p at hg
  cases hg with
  | free w =>
    rw [scan, hp]
    dsimp only
    rw [scanUnseparated_blanks w hrest]
    simp [advance, hp, ht]
  | separated v w hc =>
    rename_i sep
    have hrest' : s.rest = v.bytes ++ sep :: (w.bytes ++ text) := by simpa using hrest
    have hblank : isBlank sep = false := by rcases hc with rfl | rfl <;> decide
    have hr : (s.advance v.bytes.length).rest = sep :: (w.bytes ++ text) := by
      simp [advance, hrest']
    have hr' : { (s.advance v.bytes.length).advance 1 with pending := none }.rest
        = w.bytes ++ text := by
      simp [advance, hrest']
    rw [scan, hp]
    dsimp only
    rw [skipBlanks_eq v hrest' hblank, hr]
    dsimp only
    rw [if_pos hc, if_pos rfl, scanUnseparated_blanks w hr']
    simp [advance, ht, Nat.add_assoc, Nat.add_comm 1]

theorem attempt_ahead (h : s.Ahead text) : s.attempt = (s.goTo text s.depth).attempt := by
  rw [attempt, attempt, nextToken_ahead h]

theorem faces_goTo {g : List UInt8} {d : Nat} (hg : Leaves g [])
    (hc : c = ascii ',' ∨ IsCloser c) : (s.goTo (g ++ c :: r) d).Faces g c r :=
  ⟨rfl, rfl, hg, hc, .inl rfl⟩

/-- A value that is read ends within its text, where nothing is left open. -/
theorem attempt_ok {g : List UInt8} {stop : UInt8} {v : Value} (h : s.Ahead (g ++ stop :: r))
    (hg : Leaves g []) (hstop : stop = ascii ',' ∨ IsCloser stop)
    (hread : s.attempt = (.ok v, s₁)) :
    ∃ x y, g = x ++ y ∧ Leaves x [] ∧ s₁ = s.goTo (y ++ stop :: r) s.depth := by
  have hfaces : (s.goTo (g ++ stop :: r) s.depth).Faces g stop r := faces_goTo hg hstop
  have hle := h.length_le
  rw [attempt_ahead h] at hread
  rcases hfaces.attempt with ⟨v', s', hv, ⟨x, y, rfl, hadv, hx⟩, hgo⟩ |
    ⟨e, s', σ, he, -⟩
  · rw [hread] at hv
    cases hv
    have hrest : x ++ (y ++ stop :: r) = x ++ s₁.rest := by
      rw [← hadv.rest, rest_goTo, List.append_assoc]
    rw [← List.append_cancel_left hrest, depth_goTo, goTo_goTo hle (by simp)] at hgo
    exact ⟨x, y, rfl, hx, hgo⟩
  · rw [hread] at he
    cases he

/-- From where an attempt at a value has failed, recovery passes the rest of the text. -/
theorem recoverFrom_attempt {g : List UInt8} {stop : UInt8} {e : SyntaxError}
    (h : s.Ahead (g ++ stop :: r)) (hg : Balanced g) (hstop : stop = ascii ',' ∨ IsCloser stop)
    (hfail : s.attempt = (.error e, s₁)) : s₁.recoverFrom s = s.goTo (stop :: r) s.depth := by
  obtain ⟨gap, hgap, hrest⟩ := h.gap
  have hleaves : Leaves gap [] := .of_unmarked hgap.unmarked
  rw [attempt_ahead h] at hfail
  have hfaces : (s.goTo (g ++ stop :: r) s.depth).Faces g stop r := faces_goTo hg.matched hstop
  obtain ⟨σ, x, y, rfl, hadv, hx⟩ : ∃ σ, Reaches (s.goTo (g ++ stop :: r) s.depth) s₁ g σ := by
    rcases hfaces.attempt with ⟨v, s', hv, -⟩ | ⟨e', s', σ, he, hreach⟩
    · rw [hfail] at hv
      cases hv
    · rw [hfail] at he
      cases he
      exact ⟨σ, hreach⟩
  -- From where the value began, the reader has also passed what was announced.
  have hrest' : s.rest = gap ++ x ++ (y ++ stop :: r) := by simp [hrest]
  have hmatched : Leaves (gap ++ x ++ y) [] := by
    rw [List.append_assoc]
    exact hleaves.append hg.matched
  have hx' : Leaves (gap ++ x) σ := by simpa using hleaves.append hx
  obtain ⟨z, y', rfl, hz, hy', hrec⟩ := recoverFrom_within hrest' hmatched
    ⟨stop, r, rfl, hstop⟩ ((advanced_goTo hrest).trans hadv) hx'
  -- No comma stands outside the brackets of the text.
  rcases hy' with rfl | ⟨w, rfl⟩
  · exact hrec
  · have hcomma : Leaves (x ++ z) [] := by
      rw [List.append_assoc] at hz
      exact hz.rest hleaves
    exact absurd hcomma (hg.noComma (x ++ z) w (by simp))

/-- Where a value cannot be read, the cursor is moved over all of its text, wherever in the text
the error was found. -/
theorem value_recovers {g : List UInt8} {stop : UInt8} {e : SyntaxError}
    (h : s.Ahead (g ++ stop :: r)) (hg : Balanced g) (hstop : stop = ascii ',' ∨ IsCloser stop)
    (hfail : s.attempt = (.error e, s₁)) :
    s.value = (.null,
      { options := s.options
        rest := stop :: r
        offset := s.offset + (s.rest.length - (stop :: r).length)
        token := none
        pending := none
        depth := s.depth }) := by
  rw [value_eq_attempt, hfail]
  dsimp only
  rw [recoverFrom_attempt h hg hstop hfail]
  rfl

/-- An object whose first member has no key, as the value of a member in another object. -/
def unreadable : Reader :=
  { rest := Utf8.ofString " : \x7b5 \"]\"\x7d \x7d, 1"
    offset := 4
    pending := some (ascii ':')
    depth := 1 }

theorem attempt_unreadable : ∃ e s₁, unreadable.attempt = (.error e, s₁) := by
  obtain ⟨t, hnext, hk⟩ : ∃ t : Token, unreadable.nextToken
      = (.ok t, unreadable.goTo (Utf8.ofString "5 \"]\"\x7d \x7d, 1") 1) ∧
        t.kind = .symbol (ascii '{') := ⟨_, rfl, rfl⟩
  -- The first token in the object is a number.
  obtain ⟨e, s₁, hmembers⟩ : ∃ e s₁,
      (unreadable.goTo (Utf8.ofString "5 \"]\"\x7d \x7d, 1") 2).members [] = (.error e, s₁) := by
    obtain ⟨e, s₁, hstring⟩ : ∃ e s₁,
      (unreadable.goTo (Utf8.ofString "5 \"]\"\x7d \x7d, 1") 2).string = (.error e, s₁) :=
    ⟨_, _, rfl⟩
    exact ⟨e, s₁, by rw [members_eq, if_neg (by decide), hstring]⟩
  refine ⟨e, s₁, ?_⟩
  rw [attempt, hnext]
  dsimp only
  rw [if_pos hk, enter, if_pos (by decide)]
  show (((unreadable.goTo (Utf8.ofString "5 \"]\"\x7d \x7d, 1") 2).members []).1.map Value.object,
    ((unreadable.goTo (Utf8.ofString "5 \"]\"\x7d \x7d, 1") 2).members []).2) = _
  rw [hmembers]
  rfl

/-- The cursor is moved in front of the bracket that closes the outer object. -/
theorem value_recovers_unreadable :
    unreadable.Ahead (Utf8.ofString " \x7b5 \"]\"\x7d " ++ ascii '}' :: Utf8.ofString ", 1") ∧
      Balanced (Utf8.ofString " \x7b5 \"]\"\x7d ") ∧ (∃ e s₁, unreadable.attempt = (.error e, s₁)) ∧
      unreadable.value
        = (.null, { rest := Utf8.ofString "\x7d, 1", offset := 15, depth := 1 }) := by
  have hahead : unreadable.Ahead
      (Utf8.ofString " \x7b5 \"]\"\x7d " ++ ascii '}' :: Utf8.ofString ", 1") :=
    ⟨rfl, _, .separated ⟨Utf8.ofString " ", by decide +kernel⟩ .empty (.inr rfl), by decide +kernel⟩
  have hbalanced : Balanced (Utf8.ofString " \x7b5 \"]\"\x7d ") := by decide +kernel
  obtain ⟨e, s₁, hfail⟩ := attempt_unreadable
  refine ⟨hahead, hbalanced, ⟨e, s₁, hfail⟩, ?_⟩
  rw [value_recovers hahead hbalanced (.inr (.inl rfl)) hfail]
  rfl

end ProtoJson.Reader
