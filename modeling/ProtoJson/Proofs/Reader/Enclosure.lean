import ProtoJson.Proofs.Reader.Bounds

/-!
# Reads keep within their container

The two scans of recovery count brackets in texts of any kind, and so a reader of any text is
followed here by a walk that goes on where brackets do not match. Whether a read succeeds or not, it
closes no bracket that was open before it began, unless it has come to the end of the input. So what
recovery counts after a container has failed is one bracket less if the count begins behind the
opening bracket.
-/

namespace ProtoJson

open Grammar

/-! ## The end of an item -/

section

variable {p d d' : Nat} {b : UInt8} {x : List UInt8}

/-- With more brackets to close, an item ends further on, unless it ends with the input. -/
theorem itemLength_lt_or_eq (h : d' < d) (p : Nat) (mode : QuoteMode) (bytes : List UInt8) :
    itemLength p d' mode bytes < itemLength p d mode bytes ∨
      itemLength p d' mode bytes = p + bytes.length ∧
        itemLength p d mode bytes = p + bytes.length := by
  induction bytes generalizing p d d' mode with
  | nil => cases mode <;> exact .inr ⟨rfl, rfl⟩
  | cons b r ih =>
    have hlen : p + (b :: r).length = p + 1 + r.length := by
      rw [List.length_cons]
      omega
    rw [hlen]
    cases mode with
    | escaped => exact ih h (p + 1) .inside
    | inside => exact ih h (p + 1) (.afterInside b)
    | outside =>
      rcases Nesting.byte_cases b with rfl | hb | hb | hb
      · exact ih h (p + 1) .inside
      · rw [itemLength_open hb, itemLength_open hb]
        exact ih (Nat.succ_lt_succ h) (p + 1) .outside
      · rw [itemLength_closer hb, itemLength_closer hb, if_neg (by omega : ¬ d = 0)]
        by_cases hd : d' = 0
        · -- One item ends here, and the other one takes the bracket.
          rw [if_pos hd]
          exact .inl (le_itemLength (p + 1) (d - 1) .outside r)
        · rw [if_neg hd]
          exact ih (by omega) (p + 1) .outside
      · have hne : ¬ (b = ascii ',' ∧ d = 0) := fun hd => by omega
        rw [itemLength_unmarked hb, itemLength_unmarked hb, if_neg hne]
        by_cases hcomma : b = ascii ',' ∧ d' = 0
        · rw [if_pos hcomma]
          exact .inl (le_itemLength (p + 1) d .outside r)
        · rw [if_neg hcomma]
          exact ih h (p + 1) .outside

end

namespace Nesting

variable {n n' : Nesting} {b c : UInt8} {σ τ ρ x y : List UInt8} {m : QuoteMode}

/-! ## A walk over any text -/

/-- The place after one more byte, where a closing bracket that is not owed counts for nothing. -/
def pass (n : Nesting) (b : UInt8) : Nesting := (n.step b).getD n

/-- The place after a text of any kind. -/
def past (n : Nesting) (text : List UInt8) : Nesting := text.foldl pass n

@[simp] theorem past_nil : n.past [] = n := rfl

@[simp] theorem past_cons : n.past (b :: x) = (n.pass b).past x := rfl

theorem past_append : n.past (x ++ y) = (n.past x).past y := List.foldl_append

theorem pass_of_step (h : n.step b = some n') : n.pass b = n' := by
  rw [pass, h]
  rfl

/-- Where brackets match, the walk is the one that requires it. -/
theorem past_of_after? (h : n.after? x = some n') : n.past x = n' := by
  induction x generalizing n with
  | nil => exact Option.some.inj h
  | cons b x ih =>
    obtain ⟨n₁, hstep, hrest⟩ := Option.bind_eq_some_iff.1 h
    rw [past_cons, pass_of_step hstep]
    exact ih hrest

theorem past_of_leaves (h : Leaves x σ) : past ⟨[], .outside⟩ x = ⟨σ, .outside⟩ := past_of_after? h

theorem pass_opener (hb : b = ascii '{' ∨ b = ascii '[') :
    pass ⟨σ, .outside⟩ b = ⟨closing b :: σ, .outside⟩ := pass_of_step (step_opener hb)

theorem pass_unmarked (hb : IsUnmarked b) : pass ⟨σ, .outside⟩ b = ⟨σ, .outside⟩ :=
  pass_of_step (step_unmarked hb)

theorem pass_closer (hb : Reader.IsCloser b) : pass ⟨σ, .outside⟩ b
    = ⟨if σ.head? = some b then σ.tail else σ, .outside⟩ := by
  rw [pass, step_closer hb]
  split <;> rfl

/-- Where a bracket is open, the next closing one leaves alone what is owed further out. -/
theorem pass_closer_cons (hb : Reader.IsCloser b) (a : UInt8) (τ ρ : List UInt8) :
    pass ⟨a :: τ ++ ρ, .outside⟩ b = ⟨(if a = b then τ else a :: τ) ++ ρ, .outside⟩ := by
  rw [pass_closer hb, List.cons_append, List.head?_cons]
  simp only [Option.some_inj]
  split <;> rfl

/-- The scan over what has been passed finds the brackets that are owed after the walk. -/
theorem openBrackets_eq_past : openBrackets σ m x = (past ⟨σ, m⟩ x).owed := by
  induction x generalizing σ m with
  | nil => cases m <;> rfl
  | cons b x ih =>
    rw [past_cons]
    cases hstep : step ⟨σ, m⟩ b with
    | some n =>
      rw [openBrackets_cons hstep, pass_of_step hstep]
      exact ih
    | none =>
      obtain ⟨rfl, hb, hhead⟩ := closer_of_step_eq_none hstep
      rw [openBrackets_closer hb, if_neg hhead, pass, hstep, Option.getD_none]
      exact ih

/-- Where more is owed, more is owed after the next byte. -/
theorem pass_sublist (h : σ.Sublist τ) : ∃ σ' τ' m',
    pass ⟨σ, m⟩ b = ⟨σ', m'⟩ ∧ pass ⟨τ, m⟩ b = ⟨τ', m'⟩ ∧ σ'.Sublist τ' := by
  cases m with
  | escaped => exact ⟨σ, τ, .inside, rfl, rfl, h⟩
  | inside => exact ⟨σ, τ, .afterInside b, rfl, rfl, h⟩
  | outside =>
    rcases byte_cases b with rfl | hb | hb | hb
    · exact ⟨σ, τ, .inside, rfl, rfl, h⟩
    · exact ⟨_, _, _, pass_opener hb, pass_opener hb, h.cons_cons _⟩
    · refine ⟨_, _, _, pass_closer hb, pass_closer hb, ?_⟩
      split
      · next hσ =>
        split
        · exact h.tail
        · exact (List.tail_sublist σ).trans h
      · next hσ =>
        split
        · next hτ =>
          -- The bracket that is taken away is not among those of `σ`.
          cases h with
          | slnil => cases hτ
          | cons a h => exact h
          | cons_cons a h => exact absurd hτ hσ
        · exact h
    · exact ⟨_, _, _, pass_unmarked hb, pass_unmarked hb, h⟩

theorem past_sublist (h : σ.Sublist τ) : ∃ σ' τ' m',
    past ⟨σ, m⟩ x = ⟨σ', m'⟩ ∧ past ⟨τ, m⟩ x = ⟨τ', m'⟩ ∧ σ'.Sublist τ' := by
  induction x generalizing σ τ m with
  | nil => exact ⟨σ, τ, m, rfl, rfl, h⟩
  | cons b x ih =>
    obtain ⟨σ', τ', m', hσ, hτ, h'⟩ := pass_sublist (b := b) (m := m) h
    rw [past_cons, past_cons, hσ, hτ]
    exact ih h'

/-- The item ends in front of a byte, or recovery passes the byte and closes at most a bracket that
it has counted. -/
theorem pass_itemLength {k : Nat} (h : k ≤ τ.length) (m : QuoteMode) (b : UInt8) :
    (m = .outside ∧ ∀ p x, itemLength p k m (b :: x) = p) ∨
      ∃ k' τ' m', k' ≤ τ'.length ∧
        (∀ p x, itemLength p k m (b :: x) = itemLength (p + 1) k' m' x) ∧
        ∀ ρ, pass ⟨τ ++ ρ, m⟩ b = ⟨τ' ++ ρ, m'⟩ := by
  cases m with
  | escaped => exact .inr ⟨k, τ, .inside, h, fun _ _ => rfl, fun _ => rfl⟩
  | inside => exact .inr ⟨k, τ, .afterInside b, h, fun _ _ => rfl, fun _ => rfl⟩
  | outside =>
    rcases byte_cases b with rfl | hb | hb | hb
    · exact .inr ⟨k, τ, .inside, h, fun _ _ => rfl, fun _ => rfl⟩
    · exact .inr ⟨k + 1, closing b :: τ, .outside, Nat.succ_le_succ h,
        fun _ _ => itemLength_open hb, fun _ => pass_opener hb⟩
    · rcases Nat.eq_zero_or_pos k with rfl | hk
      · exact .inl ⟨rfl, fun p x => by rw [itemLength_closer hb, if_pos rfl]⟩
      · -- As brackets are left to close, the innermost one that is owed is one of these.
        obtain ⟨a, τ, rfl⟩ := List.exists_cons_of_length_pos (Nat.lt_of_lt_of_le hk h)
        refine .inr ⟨k - 1, _, .outside, ?_, fun p x => ?_, pass_closer_cons hb a τ⟩
        · rw [List.length_cons] at h
          split
          · omega
          · rw [List.length_cons]
            omega
        · rw [itemLength_closer hb, if_neg (Nat.ne_of_gt hk)]
    · by_cases hcomma : b = ascii ',' ∧ k = 0
      · exact .inl ⟨rfl, fun p x => by rw [itemLength_unmarked hb, if_pos hcomma]⟩
      · exact .inr ⟨k, τ, .outside, h, fun p x => by rw [itemLength_unmarked hb, if_neg hcomma],
          fun _ => pass_unmarked hb⟩

/-- What recovery passes on its way to the end of an item closes only brackets that it has counted.
It ends outside strings, unless it ends with the input. -/
theorem past_itemLength {k : Nat} (h : k ≤ τ.length) :
    ∃ τ' m', (m' = .outside ∨ itemLength 0 k m x = x.length) ∧
      ∀ ρ, past ⟨τ ++ ρ, m⟩ (x.take (itemLength 0 k m x)) = ⟨τ' ++ ρ, m'⟩ := by
  induction x generalizing τ m k with
  | nil =>
    refine ⟨τ, m, .inr ?_, fun ρ => ?_⟩
    · cases m <;> rfl
    · rw [List.take_nil, past_nil]
  | cons b r ih =>
    rcases pass_itemLength h m b with ⟨rfl, hend⟩ | ⟨k', τ', m', hk, hlen, hpass⟩
    · rw [hend]
      exact ⟨τ, .outside, .inl rfl, fun ρ => rfl⟩
    · obtain ⟨τ₂, m₂, hm₂, hwalk⟩ := ih (m := m') hk
      rw [hlen, itemLength_add]
      refine ⟨τ₂, m₂, hm₂.imp_right (congrArg (· + 1)), fun ρ => ?_⟩
      rw [List.take_succ_cons, past_cons, hpass]
      exact hwalk ρ

end Nesting

/-! ## Texts that close nothing around them -/

/-- The text ends outside strings and closes no bracket that was open before it began, unless `c`
closes the innermost one of these. -/
def Spares (c : UInt8) (text : List UInt8) : Prop :=
  ∀ τ, ∃ τ', ∀ ρ : List UInt8, ρ.head? ≠ some c →
    Nesting.past ⟨τ ++ ρ, .outside⟩ text = ⟨τ' ++ ρ, .outside⟩

namespace Spares

open Nesting

variable {b c c' : UInt8} {σ x y r : List UInt8}

theorem of_leaves (h : Leaves x σ) : Spares c x := by
  refine fun τ => ⟨σ ++ τ, fun ρ _ => ?_⟩
  rw [List.append_assoc]
  exact past_of_after? (after?_under h (τ ++ ρ))

theorem append (hx : Spares c x) (hy : Spares c y) : Spares c (x ++ y) := by
  intro τ
  obtain ⟨τ₁, h₁⟩ := hx τ
  obtain ⟨τ₂, h₂⟩ := hy τ₁
  refine ⟨τ₂, fun ρ hρ => ?_⟩
  rw [past_append, h₁ ρ hρ, h₂ ρ hρ]

/-- A closing bracket that stands alone. -/
theorem closer (hb : Reader.IsCloser b) : Spares b [b] := by
  intro τ
  cases τ with
  | nil =>
    refine ⟨[], fun ρ hρ => ?_⟩
    rw [past_cons, past_nil, List.nil_append, pass_closer hb, if_neg hρ]
  | cons a τ => exact ⟨_, fun ρ _ => pass_closer_cons hb a τ ρ⟩

/-- After a bracket is opened, it is the innermost one. -/
theorem past_opened (hb : b = ascii '{' ∨ b = ascii '[') (h : Spares c x) (hc : closing b ≠ c) :
    ∃ τ, ∀ ρ, past ⟨ρ, .outside⟩ (b :: x) = ⟨τ ++ closing b :: ρ, .outside⟩ := by
  obtain ⟨τ, hτ⟩ := h []
  refine ⟨τ, fun ρ => ?_⟩
  rw [past_cons, pass_opener hb]
  exact hτ (closing b :: ρ) fun hhead => hc (Option.some_inj.1 hhead)

theorem opened (hb : b = ascii '{' ∨ b = ascii '[') (h : Spares c x) (hc : closing b ≠ c) :
    Spares c' (b :: x) := by
  obtain ⟨τ', hτ'⟩ := h.past_opened hb hc
  refine fun τ => ⟨τ' ++ closing b :: τ, fun ρ _ => ?_⟩
  rw [hτ', List.append_assoc]
  rfl

theorem container (hb : b = ascii '{' ∨ b = ascii '[') (h : Spares c x) (hc : closing b ≠ c) :
    Spares c' (b :: (x ++ [closing b])) := by
  obtain ⟨τ', hτ'⟩ := h.past_opened hb hc
  -- What is closed at the end was opened within the text.
  obtain ⟨a, σ, hσ⟩ := List.exists_cons_of_ne_nil (List.concat_ne_nil (closing b) τ')
  refine fun τ => ⟨(if a = closing b then σ else a :: σ) ++ τ, fun ρ _ => ?_⟩
  have happend : τ' ++ closing b :: (τ ++ ρ) = a :: σ ++ (τ ++ ρ) := by
    rw [← hσ, List.append_assoc]
    rfl
  rw [← List.cons_append, past_append, hτ', happend, past_cons, past_nil,
    pass_closer_cons isCloser_closing, List.append_assoc]

/-- What recovery passes after a text. -/
theorem recovered (hx : Spares c x) : Spares c (x ++ r.take
      (itemLength 0 (openBrackets [] .outside x).length .outside r)) ∨
    itemLength 0 (openBrackets [] .outside x).length .outside r = r.length := by
  rw [or_iff_not_imp_right]
  intro hend τ
  obtain ⟨τ', hτ'⟩ := hx τ
  -- No more brackets are counted than are owed.
  have hle : (openBrackets [] .outside x).length ≤ τ'.length := by
    obtain ⟨σ₁, τ₁, m₁, hσ₁, hτ₁, hsub⟩ :=
      past_sublist (m := .outside) (x := x) (List.nil_sublist τ)
    have hwalk := hτ' [] (by simp)
    rw [List.append_nil, List.append_nil, hτ₁] at hwalk
    rw [openBrackets_eq_past, hσ₁, ← (Nesting.mk.inj hwalk).1]
    exact hsub.length_le
  obtain ⟨τ₂, m₂, hm₂, hwalk⟩ := past_itemLength (x := r) (m := .outside) hle
  obtain rfl := hm₂.resolve_right hend
  refine ⟨τ₂, fun ρ hρ => ?_⟩
  rw [past_append, hτ' ρ hρ]
  exact hwalk ρ

end Spares

namespace Reader

variable {s s' s₁ s₂ : Reader} {b c : UInt8} {x y : List UInt8}

/-! ## Moves within a container -/

theorem Advanced.refl (s : Reader) : Advanced s s [] := ⟨rfl, rfl, rfl⟩

theorem Advanced.peek?_eq_none (h : Advanced s s' x) (hs : s.peek? = none) :
    s'.peek? = none := by
  rw [peek?, List.find?_eq_none] at hs ⊢
  rw [h.rest] at hs
  exact fun a ha => hs a (List.mem_append_right x ha)

theorem advanced_advance {n : Nat} (hn : n ≤ s.rest.length) :
    Advanced s (s.advance n) (s.rest.take n) where
  options := rfl
  offset := by rw [List.length_take_of_le hn]; rfl
  rest := (List.take_append_drop n s.rest).symm

theorem advanced_recoverFrom (s s₁ : Reader) : Advanced s₁ (s₁.recoverFrom s)
    (s₁.rest.take (itemLength 0 (s₁.openSince s) .outside s₁.rest)) := by
  have hle : itemLength 0 (s₁.openSince s) .outside s₁.rest ≤ s₁.rest.length := by
    simpa using itemLength_le 0 (s₁.openSince s) .outside s₁.rest
  have hadv := advanced_advance hle
  exact ⟨hadv.options, hadv.offset, hadv.rest⟩

/-- Where only blanks are left, no item ends before the end of the input. -/
theorem itemLength_of_peek? (h : s.peek? = none) (d : Nat) :
    itemLength 0 d .outside s.rest = s.rest.length := by
  rw [peek?, List.find?_eq_none] at h
  have hinert : ∀ b ∈ s.rest, IsInert b := fun b hb => isInert_of_blank b (by simpa using h b hb)
  have hlen := itemLength_inert (p := 0) (d := d) (x := []) hinert
  rw [List.append_nil] at hlen
  rw [hlen, Nat.zero_add]
  rfl

/-- From `s` to `s'` the cursor has moved over a text that closes nothing around it, or it has come
to the end of what there is to read. -/
def Stays (c : UInt8) (s s' : Reader) : Prop :=
  ∃ x, Advanced s s' x ∧ (s'.peek? = none ∨ Spares c x)

/-- From `s` to `s'` the cursor has moved over the rest of a container and its closing bracket. -/
structure Closes (c bracket : UInt8) (s s' : Reader) : Prop where
  token : s'.token = none
  closed : ∃ x, Advanced s s' (x ++ [bracket]) ∧ Spares c x

theorem Stays.trans (h : Stays c s s₁) (h' : Stays c s₁ s₂) : Stays c s s₂ := by
  obtain ⟨x, hx, hend⟩ := h
  obtain ⟨y, hy, hend'⟩ := h'
  refine ⟨x ++ y, hx.trans hy, ?_⟩
  rcases hend with hend | hx'
  · exact .inl (hy.peek?_eq_none hend)
  · exact hend'.imp_right hx'.append

theorem Stays.closes {bracket : UInt8} (h : Stays c s s₁) (hb : IsCloser bracket)
    (h' : Closes c bracket s₁ s₂) : Closes c bracket s s₂ := by
  obtain ⟨x, hx, hend⟩ := h
  obtain ⟨y, hy, hy'⟩ := h'.closed
  rcases hend with hend | hx'
  · -- The bracket is something to read.
    rw [peek?, List.find?_eq_none] at hend
    have hblank := hend bracket (by rw [hy.rest]; simp)
    rw [not_blank_of_stops (.inr hb)] at hblank
    exact absurd rfl hblank
  · refine ⟨h'.token, x ++ y, ?_, hx'.append hy'⟩
    rw [List.append_assoc]
    exact hx.trans hy

theorem Stays.comma (h : Stays c s s') : Stays c s s'.comma := by
  obtain ⟨x, hx, hend⟩ := h
  exact ⟨x, ⟨hx.options, hx.offset, hx.rest⟩, hend⟩

theorem Stays.of_colon (h : Stays c s.colon s') : Stays c s s' := by
  obtain ⟨x, hx, hend⟩ := h
  exact ⟨x, ⟨hx.options, hx.offset, hx.rest⟩, hend⟩

/-- What is passed by recovery closes nothing around the value. -/
theorem Stays.recoverFrom (h : Stays c s s₁) : Stays c s (s₁.recoverFrom s) := by
  obtain ⟨x, hx, hend⟩ := h
  have hrec := advanced_recoverFrom s s₁
  refine ⟨_, hx.trans hrec, ?_⟩
  rcases hend with hend | hx'
  · exact .inl (hrec.peek?_eq_none hend)
  · rw [hx.openSince_eq]
    rcases hx'.recovered (r := s₁.rest) with hspares | hall
    · exact .inr hspares
    · left
      have hrest : (s₁.recoverFrom s).rest = [] := by
        show s₁.rest.drop _ = []
        rw [hx.openSince_eq, hall, List.drop_length]
      rw [peek?, hrest]
      rfl

/-! ## Tokens -/

/-- The only closing bracket that the reader can take as a token is `c`. -/
def Admits (s : Reader) (c : UInt8) : Prop :=
  s.pending = some (ascii ',') → ∀ b, IsCloser b → s.atSymbol b = true → b = c

theorem admits_of_pending (h : s.pending ≠ some (ascii ',')) : s.Admits c := fun hp => absurd hp h

theorem exists_admits (ht : s.token = none) : ∃ c, s.Admits c := by
  refine ⟨s.peek?.getD 0, fun _ b _ hat => ?_⟩
  rw [atSymbol, ht] at hat
  dsimp only at hat
  rw [eq_of_beq hat]
  rfl

/-- A token that closes no bracket has been passed with all that stands in front of it. -/
theorem advanced_nextToken {t : Token} (ht : s.token = none) (h : s.nextToken = (.ok t, s₁))
    (hk : ∀ b, t.kind = .symbol b → ¬ IsCloser b) :
    ∃ g x, Advanced s s₁ (g ++ x) ∧ Leaves g [] ∧ Spells t.kind x := by
  rcases nextToken_inv ht h with ⟨x, rest, hahead, rfl, hspells⟩ | ⟨b, hb, hclose⟩
  · obtain ⟨g, hgap, hrest⟩ := hahead.gap
    refine ⟨g, x, advanced_goTo ?_, .of_unmarked hgap.unmarked, hspells⟩
    rw [hrest, List.append_assoc]
  · exact absurd hclose (hk b hb)

/-- A closing bracket that is taken stands in front of the reader. -/
theorem advanced_closer {t : Token} (ht : s.token = none) (hnext : s.nextToken = (.ok t, s₁))
    (hk : t.kind = .symbol b) (hb : IsCloser b) : ∃ w : Blanks, Advanced s s₁ (w.bytes ++ [b]) ∧
      s.pending = some (ascii ',') ∧ s.atSymbol b = true := by
  obtain ⟨hp, w, x, hrest⟩ := nextToken_closer_inv ht hnext hk hb
  have hblank : isBlank b = false := not_blank_of_stops (.inr hb)
  obtain ⟨t', -, hnext'⟩ := nextToken_closer w hb ht hp hrest
  rw [hnext] at hnext'
  cases hnext'
  refine ⟨w, advanced_goTo (by simp [hrest]), hp, ?_⟩
  rw [atSymbol_eq w ht hrest hblank]
  exact beq_self_eq_true b

theorem stays_nextToken (ht : s.token = none) (hc : s.Admits c) : Stays c s s.nextToken.2 := by
  rcases hnext : s.nextToken with ⟨e | t, s₁⟩
  · obtain ⟨g, hadv, hg⟩ := nextToken_error_inv ht hnext
    refine ⟨g, hadv, .inr (.of_leaves (σ := []) ?_)⟩
    rcases hg with ⟨w, rfl⟩ | hg
    · exact leaves_blanks w
    · exact .of_unmarked hg.unmarked
  · by_cases hk : ∃ b, t.kind = .symbol b ∧ IsCloser b
    · obtain ⟨b, hk, hb⟩ := hk
      obtain ⟨w, hadv, hp, hat⟩ := advanced_closer ht hnext hk hb
      obtain rfl := hc hp b hb hat
      exact ⟨w.bytes ++ [b], hadv, .inr ((Spares.of_leaves (leaves_blanks w)).append (.closer hb))⟩
    · have hopen : ∀ b, t.kind = .symbol b → ¬ IsCloser b := fun b hb hclose => hk ⟨b, hb, hclose⟩
      obtain ⟨g, x, hadv, hg, hx⟩ := advanced_nextToken ht hnext hopen
      exact ⟨_, hadv, .inr ((Spares.of_leaves hg).append (.of_leaves (hx.leaves hopen)))⟩

/-- A read of one token leaves the cursor behind the token, also if it is kept. -/
theorem stays_string (ht : s.token = none) (hc : s.Admits c) : Stays c s s.string.2 := by
  have hstays := stays_nextToken ht hc
  rw [string, expect]
  rcases hnext : s.nextToken with ⟨e | t, s₁⟩ <;> rw [hnext] at hstays
  · exact hstays
  · dsimp only [andThen]
    split
    · exact hstays
    · obtain ⟨x, hadv, hend⟩ := hstays
      exact ⟨x, ⟨hadv.options, hadv.offset, hadv.rest⟩, hend⟩

/-! ## Values of any shape -/

/-- A read of what is left in a container closes the container, or it fails within it. -/
structure Keeps (c bracket : UInt8) (s : Reader) {α : Type} (r : Except SyntaxError α × Reader) :
    Prop where
  error : ∀ e, r.1 = .error e → Stays c s r.2
  ok : ∀ a, r.1 = .ok a → Closes c bracket s r.2

section

variable {α : Type} {r : Except SyntaxError α × Reader} {bracket : UInt8}

theorem Keeps.after (h : Stays c s s₁) (hb : IsCloser bracket) (hr : Keeps c bracket s₁ r) :
    Keeps c bracket s r :=
  ⟨fun e he => h.trans (hr.error e he), fun a ha => h.closes hb (hr.ok a ha)⟩

/-- In front of its closing bracket, a container is closed. -/
theorem keeps_close (ht : s.token = none) (hb : IsCloser bracket)
    (hat : s.atSymbol bracket = true) (content : α) :
    ∃ s', s.close bracket content = (.ok content, s') ∧ Closes c bracket s s' := by
  obtain ⟨w, r, hrest⟩ := atSymbol_inv ht hat
  exact ⟨_, close_eq content w hb ht hrest, rfl, w.bytes, advanced_goTo (by simp [hrest]),
    .of_leaves (leaves_blanks w)⟩

/-- A container stays within what is open around it. -/
theorem Keeps.container {g : List UInt8} (h : Keeps c (Nesting.closing b) s₁ r)
    (hb : b = ascii '{' ∨ b = ascii '[') (hc : Nesting.closing b ≠ c)
    (hadv : Advanced s s₁ (g ++ [b])) (hg : Leaves g []) (c' : UInt8) : Stays c' s r.2 := by
  cases hr : r.1 with
  | error e =>
    obtain ⟨x, hx, hend⟩ := h.error e hr
    refine ⟨_, hadv.trans hx, hend.imp_right fun hx' => ?_⟩
    rw [List.append_assoc]
    exact (Spares.of_leaves hg).append (hx'.opened hb hc)
  | ok a =>
    obtain ⟨x, hx, hx'⟩ := (h.ok a hr).closed
    refine ⟨_, hadv.trans hx, .inr ?_⟩
    rw [List.append_assoc]
    exact (Spares.of_leaves hg).append (hx'.container hb hc)

end

/-- A read stays within the containers around it, and if it succeeds, it keeps no token. -/
structure Abides (c : UInt8) (s : Reader) {α : Type} (r : Except SyntaxError α × Reader) :
    Prop where
  stays : Stays c s r.2
  token : ∀ a, r.1 = .ok a → r.2.token = none

/-- An opening bracket ends the text that is passed when it is taken. -/
theorem advanced_opener {t : Token} (ht : s.token = none) (hnext : s.nextToken = (.ok t, s₁))
    (hk : t.kind = .symbol b) (hb : b = ascii '{' ∨ b = ascii '[') :
    ∃ g, Advanced s s₁ (g ++ [b]) ∧ Leaves g [] := by
  have hnot : ∀ b', t.kind = .symbol b' → ¬ IsCloser b' := by
    intro b' hk'
    rw [hk] at hk'
    cases hk'
    rcases hb with rfl | rfl <;> decide
  obtain ⟨g, x, hadv, hg, hx⟩ := advanced_nextToken ht hnext hnot
  rw [hk] at hx
  obtain rfl := hx.bracket_eq
  exact ⟨g, hadv, hg⟩

/-- A container whose opening bracket has been taken, where what it holds is read within it. -/
theorem abides_container {α β : Type} {t : Token} {body : Reader → Except SyntaxError α × Reader}
    {f : α → β} {c' : UInt8} (ht : s.token = none) (hnext : s.nextToken = (.ok t, s₁))
    (hk : t.kind = .symbol b) (hb : b = ascii '{' ∨ b = ascii '[') (hc : Nesting.closing b ≠ c)
    (hstays : Stays c' s s₁)
    (hbody : ∀ s₂, s₁.enter t = (.ok (), s₂) → s₂.token = none →
      Keeps c (Nesting.closing b) s₂ (body s₂)) :
    Abides c' s (chain (s₁.enter t) fun _ s₂ => chain (body s₂) fun a s₃ => (.ok (f a), s₃)) := by
  obtain ⟨g, hadv, hg⟩ := advanced_opener ht hnext hk hb
  have htoken : s₁.token = none := (nextToken_progress hnext).1
  rw [enter] at hbody ⊢
  split
  · next hdepth =>
    rw [if_pos hdepth] at hbody
    have hkeeps := hbody _ rfl htoken
    have hadv' : Advanced s { s₁ with depth := s₁.depth + 1 } (g ++ [b]) :=
      ⟨hadv.options, hadv.offset, hadv.rest⟩
    have hinner := hkeeps.container hb hc hadv' hg c'
    dsimp only [chain]
    rcases hres : body { s₁ with depth := s₁.depth + 1 } with ⟨e | a, s₃⟩ <;>
      rw [hres] at hinner hkeeps
    · exact ⟨hinner, fun _ h => by cases h⟩
    · exact ⟨hinner, fun _ _ => (hkeeps.ok a rfl).token⟩
  · exact ⟨hstays, fun _ h => by cases h⟩

/-- Where one closing bracket is not the next byte, only the other one can be taken. -/
theorem admits_of_atSymbol {c' : UInt8} (hat : s.atSymbol c' = false)
    (hc : ∀ b, IsCloser b → b = c' ∨ b = c) : s.Admits c := by
  intro _ b hb hatb
  refine (hc b hb).resolve_left ?_
  rintro rfl
  rw [hat] at hatb
  cases hatb

/-- Members are read within their object. -/
abbrev KeepsMembers (s : Reader) (ms : List (String × Value)) : Prop :=
  s.token = none → Keeps (ascii ']') (ascii '}') s (s.members ms)

/-- Items are read within their array. -/
abbrev KeepsItems (s : Reader) (vs : List Value) : Prop :=
  s.token = none → Keeps (ascii '}') (ascii ']') s (s.items vs)

/-- An attempt at a value, where the reads within the value keep within their container. -/
theorem abides_attempt (ht : s.token = none) (hc : s.Admits c)
    (hin : ∀ t s₁ s₂, s.nextToken = (.ok t, s₁) → s₁.enter t = (.ok (), s₂) →
      KeepsMembers s₂ [] ∧ KeepsItems s₂ []) : Abides c s s.attempt := by
  have hstays := stays_nextToken ht hc
  rw [attempt_eq_chain]
  rcases hnext : s.nextToken with ⟨e | t, s₁⟩ <;> rw [hnext] at hstays
  · exact ⟨hstays, fun _ h => by cases h⟩
  · dsimp only [chain]
    split
    · next hk =>
      exact abides_container ht hnext hk (.inl rfl) (by decide) hstays
        fun s₂ henter => (hin t s₁ s₂ hnext henter).1
    · split
      · next hk =>
        exact abides_container ht hnext hk (.inr rfl) (by decide) hstays
          fun s₂ henter => (hin t s₁ s₂ hnext henter).2
      · exact ⟨hstays, fun _ _ => (nextToken_progress hnext).1⟩

/-- Of the two closing brackets a container can only meet the one that is not its own: where its own
one is next, it is closed. -/
theorem passesOn_keeps : PassesOn
    (fun s => s.token = none → (∀ c, s.Admits c → Stays c s s.value.2) ∧ s.value.2.token = none)
    KeepsMembers KeepsItems where
  value s hin ht := by
    rw [value_eq_attempt]
    have habides := fun c hc => abides_attempt (c := c) ht hc hin
    rcases hres : s.attempt with ⟨e | v, s₁⟩ <;> rw [hres] at habides
    · exact ⟨fun c hc => (habides c hc).stays.recoverFrom, rfl⟩
    · obtain ⟨c, hc⟩ := exists_admits ht
      exact ⟨fun c hc => (habides c hc).stays, (habides c hc).token v rfl⟩
  members s ms hin ht := by
    rw [members_eq_chain]
    split
    · next hat =>
      obtain ⟨s', hclose, hcloses⟩ := keeps_close ht (.inl rfl) hat ms
      rw [hclose]
      exact ⟨fun _ h => (by cases h), fun _ _ => hcloses⟩
    · next hat =>
      have hadmits : s.Admits (ascii ']') := admits_of_atSymbol (by simpa using hat) fun _ hb => hb
      have hstays := stays_string ht hadmits
      rcases hkey : s.string with ⟨e | key, s₁⟩ <;> rw [hkey] at hstays
      · exact ⟨fun _ _ => hstays, fun _ h => by cases h⟩
      · obtain ⟨hvalue, hmembers⟩ := hin key s₁ hkey
        have htoken : s₁.token = none := by
          obtain ⟨-, -, hgo, -⟩ := string_inv ht hkey
          rw [hgo]
          rfl
        obtain ⟨hstays', htoken'⟩ := hvalue htoken
        -- Where a colon is announced, no closing bracket is taken as a token.
        have hcolon : Stays (ascii ']') s₁ s₁.colon.value.2.comma :=
          (hstays' _ (admits_of_pending (show some (ascii ':') ≠ _ by decide))).of_colon.comma
        exact (hmembers _ htoken').after (hstays.trans hcolon) (.inl rfl)
  items s vs hin ht := by
    rw [items_eq]
    split
    · next hat =>
      obtain ⟨s', hclose, hcloses⟩ := keeps_close ht (.inr rfl) hat vs.reverse
      rw [hclose]
      exact ⟨fun _ h => (by cases h), fun _ _ => hcloses⟩
    · next hat =>
      split
      · next hpeek =>
        obtain ⟨hvalue, hitems⟩ := hin hpeek
        obtain ⟨hstays, htoken⟩ := hvalue ht
        have hadmits : s.Admits (ascii '}') :=
          admits_of_atSymbol (by simpa using hat) fun _ hb => hb.symm
        exact (hitems (s.value.1 :: vs) htoken).after (hstays _ hadmits).comma (.inr rfl)
      · next hpeek =>
        have hnone : s.peek? = none := by simpa using hpeek
        exact ⟨fun _ _ => ⟨[], .refl s, .inl hnone⟩, fun _ h => by cases h⟩

theorem keepsMembers (s : Reader) (ms : List (String × Value)) : KeepsMembers s ms :=
  passesOn_keeps.members_all s ms

theorem keepsItems (s : Reader) (vs : List Value) : KeepsItems s vs :=
  passesOn_keeps.items_all s vs

/-- A value of any shape closes nothing around it, and keeps no token. -/
theorem stays_value (ht : s.token = none) (hc : s.Admits c) : Stays c s s.value.2 :=
  (passesOn_keeps.value_all s ht).1 c hc

theorem token_value (ht : s.token = none) : s.value.2.token = none :=
  (passesOn_keeps.value_all s ht).2

end Reader

end ProtoJson
