import ProtoJson.Proofs.Reader.Inversion
import ProtoJson.Proofs.Reader.Recovery

/-!
# Nesting of brackets

A text is followed byte by byte from place to place: which closing brackets are owed there, and
whether it is within a string. This is the one measure by which the two scans of recovery are
judged: the scan over what a reader has passed finds the brackets that are owed after it, and the
scan over what is left ends where these have been closed.
-/

namespace ProtoJson

open Grammar

/-- A place in a text: the closing brackets that are owed there, innermost first, and whether it is
within a string. -/
structure Nesting where
  owed : List UInt8
  mode : QuoteMode
  deriving DecidableEq, Repr

namespace Nesting

/-- Outside all brackets and strings. -/
def top : Nesting := ⟨[], .outside⟩

/-- The place after one more byte. There is none if the byte closes a bracket that is not owed. -/
def step (n : Nesting) (b : UInt8) : Option Nesting :=
  match n.mode with
  | .escaped => some { n with mode := .inside }
  | .inside => some { n with mode := .afterInside b }
  | .outside =>
    if b = ascii '"' then some { n with mode := .inside }
    else if b = ascii '{' then some { n with owed := ascii '}' :: n.owed }
    else if b = ascii '[' then some { n with owed := ascii ']' :: n.owed }
    else if b = ascii '}' ∨ b = ascii ']' then
      if n.owed.head? = some b then some { n with owed := n.owed.tail } else none
    else some n

/-- The place after a text. -/
def after? (n : Nesting) (text : List UInt8) : Option Nesting := text.foldlM step n

end Nesting

/-- A text in which every string is closed and every closing bracket has its opening one. The
brackets that are still open at its end are closed by those of `owed`. -/
def Leaves (text owed : List UInt8) : Prop :=
  Nesting.top.after? text = some ⟨owed, .outside⟩

instance (text owed : List UInt8) : Decidable (Leaves text owed) :=
  inferInstanceAs (Decidable (_ = _))

/-- A text in which every string is closed, every bracket is matched by its own kind, and no comma
stands outside all strings and brackets. -/
structure Balanced (text : List UInt8) : Prop where
  matched : Leaves text []
  noComma : ∀ x y, text = x ++ ascii ',' :: y → ¬ Leaves x []

instance (text : List UInt8) : Decidable (Balanced text) :=
  decidable_of_iff (Leaves text [] ∧
      ∀ i < text.length, text[i]? = some (ascii ',') → ¬ Leaves (text.take i) []) <| by
    constructor
    · rintro ⟨hmatched, hcomma⟩
      refine ⟨hmatched, fun x y h => ?_⟩
      have hx := hcomma x.length (by simp [h]) (by simp [h])
      rwa [h, List.take_left] at hx
    · intro h
      refine ⟨h.matched, fun i _ hi => h.noComma _ (text.drop (i + 1)) ?_⟩
      obtain ⟨hlt, hget⟩ := List.getElem?_eq_some_iff.1 hi
      rw [← hget, ← List.drop_eq_getElem_cons hlt, List.take_append_drop]

namespace Nesting

variable {n n' : Nesting} {b c : UInt8} {σ τ x y : List UInt8} {m : QuoteMode}

/-! ## Steps -/

@[simp] theorem after?_nil : n.after? [] = some n := rfl

theorem after?_cons : n.after? (b :: x) = (n.step b).bind (·.after? x) := rfl

theorem after?_append : n.after? (x ++ y) = (n.after? x).bind (·.after? y) :=
  List.foldlM_append

theorem step_unmarked (hb : IsUnmarked b) : step ⟨σ, .outside⟩ b = some ⟨σ, .outside⟩ := by
  have hclose : ¬ (b = ascii '}' ∨ b = ascii ']') := not_or.2 ⟨hb.closeBrace, hb.closeBracket⟩
  simp only [step, hb.quote, hb.brace, hb.bracket, hclose, if_false]

/-- Outside strings, a closing bracket takes away the one that is owed. -/
theorem step_closer (hb : Reader.IsCloser b) :
    step ⟨σ, .outside⟩ b = if σ.head? = some b then some ⟨σ.tail, .outside⟩ else none := by
  have hq : b ≠ ascii '"' := by rcases hb with rfl | rfl <;> decide
  have ho : b ≠ ascii '{' := by rcases hb with rfl | rfl <;> decide
  have ho' : b ≠ ascii '[' := by rcases hb with rfl | rfl <;> decide
  simp only [step, hq, ho, ho', if_false, if_pos hb]

/-- No bracket can be closed where none is open. -/
theorem after?_closer (hb : Reader.IsCloser b) : top.after? (b :: x) = none := by
  rw [after?_cons, top, step_closer hb]
  rfl

/-- The ways in which a byte can stand outside all strings. -/
theorem byte_cases (b : UInt8) :
    b = ascii '"' ∨ (b = ascii '{' ∨ b = ascii '[') ∨ Reader.IsCloser b ∨ IsUnmarked b := by
  by_cases hq : b = ascii '"'
  · exact .inl hq
  by_cases ho : b = ascii '{' ∨ b = ascii '['
  · exact .inr (.inl ho)
  by_cases hc : Reader.IsCloser b
  · exact .inr (.inr (.inl hc))
  · rw [not_or] at ho hc
    exact .inr (.inr (.inr ⟨hq, ho.1, ho.2, hc.1, hc.2⟩))

/-- The bracket that closes what another one opens. -/
def closing (b : UInt8) : UInt8 := if b = ascii '{' then ascii '}' else ascii ']'

theorem isCloser_closing : Reader.IsCloser (closing b) := by
  unfold closing
  split
  · exact .inl rfl
  · exact .inr rfl

theorem step_opener (hb : b = ascii '{' ∨ b = ascii '[') :
    step ⟨σ, .outside⟩ b = some ⟨closing b :: σ, .outside⟩ := by
  rcases hb with rfl | rfl <;> rfl

theorem step_inside : step ⟨σ, .inside⟩ b = some ⟨σ, .afterInside b⟩ := rfl

/-- The rules of a step. -/
inductive Steps : Nesting → UInt8 → Nesting → Prop where
  | escaped (σ : List UInt8) (b : UInt8) : Steps ⟨σ, .escaped⟩ b ⟨σ, .inside⟩
  | inside (σ : List UInt8) (b : UInt8) : Steps ⟨σ, .inside⟩ b ⟨σ, .afterInside b⟩
  | quote (σ : List UInt8) : Steps ⟨σ, .outside⟩ (ascii '"') ⟨σ, .inside⟩
  | opener (σ : List UInt8) {b : UInt8} (hb : b = ascii '{' ∨ b = ascii '[') :
    Steps ⟨σ, .outside⟩ b ⟨closing b :: σ, .outside⟩
  | closer (σ : List UInt8) {b : UInt8} (hb : Reader.IsCloser b) :
    Steps ⟨b :: σ, .outside⟩ b ⟨σ, .outside⟩
  | unmarked (σ : List UInt8) {b : UInt8} (hb : IsUnmarked b) :
    Steps ⟨σ, .outside⟩ b ⟨σ, .outside⟩

theorem step_eq_some_iff : n.step b = some n' ↔ Steps n b n' := by
  constructor
  · intro h
    obtain ⟨σ, m⟩ := n
    cases m with
    | escaped =>
      cases h
      exact .escaped σ b
    | inside =>
      cases h
      exact .inside σ b
    | outside =>
      rcases byte_cases b with rfl | hb | hb | hb
      · cases h
        exact .quote σ
      · rw [step_opener hb] at h
        cases h
        exact .opener σ hb
      · rw [step_closer hb] at h
        split at h
        · next hhead =>
          obtain ⟨σ, rfl⟩ := List.head?_eq_some_iff.1 hhead
          cases h
          exact .closer σ hb
        · cases h
      · rw [step_unmarked hb] at h
        cases h
        exact .unmarked σ hb
  · intro h
    cases h with
    | escaped | inside | quote => rfl
    | opener σ hb => exact step_opener hb
    | closer σ hb => rw [step_closer hb, List.head?_cons, if_pos rfl, List.tail_cons]
    | unmarked σ hb => exact step_unmarked hb

/-- Only a closing bracket that is not owed has no step. -/
theorem closer_of_step_eq_none (h : step ⟨σ, m⟩ b = none) :
    m = .outside ∧ Reader.IsCloser b ∧ σ.head? ≠ some b := by
  cases m with
  | escaped | inside => cases h
  | outside =>
    rcases byte_cases b with rfl | hb | hb | hb
    · cases h
    · rw [step_opener hb] at h
      cases h
    · refine ⟨rfl, hb, fun hhead => ?_⟩
      rw [step_closer hb, if_pos hhead] at h
      cases h
    · rw [step_unmarked hb] at h
      cases h

/-! ## Texts within others -/

/-- What is owed further out does not matter, until it is closed. -/
theorem step_under (h : step ⟨σ, m⟩ b = some n) (ρ : List UInt8) :
    step ⟨σ ++ ρ, m⟩ b = some ⟨n.owed ++ ρ, n.mode⟩ := by
  rw [step_eq_some_iff] at h ⊢
  cases h with
  | escaped => exact .escaped _ b
  | inside => exact .inside _ b
  | quote => exact .quote _
  | opener _ hb => exact .opener _ hb
  | closer _ hb => exact .closer _ hb
  | unmarked _ hb => exact .unmarked _ hb

theorem after?_under (h : after? ⟨σ, m⟩ x = some n) (ρ : List UInt8) :
    after? ⟨σ ++ ρ, m⟩ x = some ⟨n.owed ++ ρ, n.mode⟩ := by
  induction x generalizing σ m with
  | nil =>
    cases h
    rfl
  | cons b x ih =>
    obtain ⟨n₁, hstep, hrest⟩ := Option.bind_eq_some_iff.1 h
    rw [after?_cons, step_under hstep ρ]
    exact ih hrest

/-- A byte within a container is a byte of what the container holds, or it closes the container. -/
theorem step_within {ρ : List UInt8} (h : step ⟨σ ++ c :: ρ, m⟩ b = some n) :
    (∃ n', step ⟨σ, m⟩ b = some n' ∧ n = ⟨n'.owed ++ c :: ρ, n'.mode⟩) ∨
      (σ = [] ∧ m = .outside ∧ b = c ∧ n = ⟨ρ, .outside⟩) := by
  cases hstep : step ⟨σ, m⟩ b with
  | some n' =>
    rw [step_under hstep] at h
    cases h
    exact .inl ⟨n', rfl, rfl⟩
  | none =>
    -- Only a closing bracket can fail, and here it is the one of the container.
    obtain ⟨rfl, hb, hhead⟩ := closer_of_step_eq_none hstep
    rw [step_closer hb] at h
    cases σ with
    | nil =>
      split at h
      · next hc =>
        cases h
        cases hc
        exact .inr ⟨rfl, rfl, rfl, rfl⟩
      · cases h
    | cons a σ =>
      rw [List.head?_cons] at hhead
      rw [List.cons_append, List.head?_cons, if_neg hhead] at h
      cases h

/-- A container that is open is closed further on, and what stands before that lies within it. -/
theorem exists_closing {ρ : List UInt8} (h : after? ⟨σ ++ c :: ρ, m⟩ x = some ⟨τ, .outside⟩)
    (hτ : τ.length ≤ ρ.length) : ∃ y z, x = y ++ c :: z ∧ after? ⟨σ, m⟩ y = some top ∧
      after? ⟨ρ, .outside⟩ z = some ⟨τ, .outside⟩ := by
  induction x generalizing σ m with
  | nil =>
    cases h
    simp only [List.length_append, List.length_cons] at hτ
    omega
  | cons b x ih =>
    obtain ⟨n, hstep, hrest⟩ := Option.bind_eq_some_iff.1 h
    rcases step_within hstep with ⟨n', hn', rfl⟩ | ⟨rfl, rfl, rfl, rfl⟩
    · obtain ⟨y, z, rfl, hy, hz⟩ := ih hrest
      refine ⟨b :: y, z, rfl, ?_, hz⟩
      rw [after?_cons, hn']
      exact hy
    · exact ⟨[], x, rfl, rfl, hrest⟩

/-! ## Strings and other tokens -/

theorem after?_unmarked (h : ∀ b ∈ x, IsUnmarked b) :
    after? ⟨σ, .outside⟩ x = some ⟨σ, .outside⟩ := by
  induction x with
  | nil => rfl
  | cons b x ih =>
    rw [after?_cons, step_unmarked (h b List.mem_cons_self)]
    exact ih fun c hc => h c (List.mem_cons_of_mem b hc)

/-- A string ends at its closing quote. -/
theorem after?_stringBody (h : isStringBody x = true) :
    after? ⟨σ, .inside⟩ (x ++ [ascii '"']) = some ⟨σ, .outside⟩ := by
  have hq : ascii '\\' ≠ ascii '"' := by decide
  fun_induction isStringBody x with
  | case1 => rfl
  | case2 => cases h
  | case3 => cases h
  | case4 c r _ ih => exact ih h
  | case5 b r hb hb' ih =>
    rw [List.cons_append, after?_cons, step_inside, QuoteMode.afterInside, if_neg hb', if_neg hb]
    exact ih h

/-- A string does not end before its closing quote. -/
theorem after?_stringBody_prefix (h : isStringBody (x ++ y) = true) :
    after? ⟨σ, .inside⟩ x ≠ some ⟨τ, .outside⟩ := by
  generalize hxy : x ++ y = body at h
  fun_induction isStringBody body generalizing x with
  | case1 =>
    obtain ⟨rfl, -⟩ := List.append_eq_nil_iff.1 hxy
    simp
  | case2 => cases h
  | case3 => cases h
  | case4 c r hq ih =>
    -- The backslash and the byte after it are passed together.
    rcases x with _ | ⟨b, _ | ⟨b', x⟩⟩
    · simp
    · simp only [List.cons_append, List.cons.injEq] at hxy
      rw [hxy.1, after?_cons, step_inside, QuoteMode.afterInside, if_pos rfl]
      simp
    · simp only [List.cons_append, List.cons.injEq] at hxy
      rw [hxy.1]
      have hrest : after? ⟨σ, .inside⟩ x ≠ some ⟨τ, .outside⟩ := ih hxy.2.2 h
      exact hrest
  | case5 b r hb hb' ih =>
    rcases x with _ | ⟨b', x⟩
    · simp
    · simp only [List.cons_append, List.cons.injEq] at hxy
      rw [hxy.1, after?_cons, step_inside, QuoteMode.afterInside, if_neg hb', if_neg hb]
      exact ih hxy.2 h

/-! ## The two scans of recovery -/

/-- The scan over what has been passed takes the same step. -/
theorem openBrackets_cons (h : step ⟨σ, m⟩ b = some n) :
    openBrackets σ m (b :: x) = openBrackets n.owed n.mode x := by
  cases step_eq_some_iff.1 h with
  | escaped | inside | quote => rfl
  | opener _ hb => rcases hb with rfl | rfl <;> rfl
  | closer _ hb => rw [openBrackets_closer hb, List.head?_cons, if_pos rfl, List.tail_cons]
  | unmarked _ hb => exact openBrackets_unmarked (List.forall_mem_singleton.2 hb)

/-- It finds the brackets that are owed. -/
theorem openBrackets_eq (h : after? ⟨σ, m⟩ x = some n) : openBrackets σ m x = n.owed := by
  induction x generalizing σ m with
  | nil =>
    cases h
    cases m <;> rfl
  | cons b x ih =>
    obtain ⟨n₁, hstep, hrest⟩ := Option.bind_eq_some_iff.1 h
    rw [openBrackets_cons hstep]
    exact ih hrest

/-- The scan over what is left takes the same step, unless it ends there. -/
theorem itemLength_cons {p : Nat} (h : step ⟨σ, m⟩ b = some n)
    (hcomma : ¬ (σ = [] ∧ m = .outside ∧ b = ascii ',')) :
    itemLength p σ.length m (b :: x) = itemLength (p + 1) n.owed.length n.mode x := by
  cases step_eq_some_iff.1 h with
  | escaped | inside | quote => rfl
  | opener _ hb => exact itemLength_open hb
  | closer _ hb => exact itemLength_close hb
  | unmarked _ hb =>
    have hd : ¬ (b = ascii ',' ∧ σ.length = 0) := fun hd =>
      hcomma ⟨List.length_eq_zero_iff.1 hd.2, rfl, hd.1⟩
    rw [itemLength_unmarked hb, if_neg hd]

/-- It ends where all that is owed has been closed: in front of a comma or at the end. -/
theorem exists_itemLength {p : Nat} {r : List UInt8} (h : after? ⟨σ, m⟩ y = some top)
    (hr : StopsItem r) :
    ∃ x z, y = x ++ z ∧ after? ⟨σ, m⟩ x = some top ∧ (z = [] ∨ ∃ w, z = ascii ',' :: w) ∧
      itemLength p σ.length m (y ++ r) = p + x.length := by
  induction y generalizing σ m p with
  | nil =>
    cases h
    exact ⟨[], [], rfl, rfl, .inl rfl, itemLength_stops hr⟩
  | cons b y ih =>
    by_cases hcomma : σ = [] ∧ m = .outside ∧ b = ascii ','
    · obtain ⟨rfl, rfl, rfl⟩ := hcomma
      exact ⟨[], _, rfl, rfl, .inr ⟨y, rfl⟩, itemLength_stops ⟨_, _, rfl, .inl rfl⟩⟩
    · obtain ⟨n, hstep, hrest⟩ := Option.bind_eq_some_iff.1 h
      obtain ⟨x, z, rfl, hx, hz, hlen⟩ := ih (p := p + 1) hrest
      refine ⟨b :: x, z, rfl, ?_, hz, ?_⟩
      · rw [after?_cons, hstep]
        exact hx
      · rw [List.cons_append, itemLength_cons hstep hcomma, hlen, List.length_cons]
        omega

end Nesting

/-! ## What a text leaves open -/

namespace Leaves

open Nesting

variable {b c : UInt8} {σ τ x y z : List UInt8}

theorem of_unmarked (h : ∀ b ∈ x, IsUnmarked b) : Leaves x [] := after?_unmarked h

theorem append (hx : Leaves x τ) (hy : Leaves y σ) : Leaves (x ++ y) (σ ++ τ) := by
  rw [Leaves, after?_append, hx]
  exact after?_under (σ := []) hy τ

/-- What is left after the front of a text in which nothing stays open. -/
theorem rest (h : Leaves (x ++ y) []) (hx : Leaves x σ) :
    after? ⟨σ, .outside⟩ y = some top := by
  rw [Leaves, after?_append, hx] at h
  exact h

theorem close (hx : Leaves x (b :: τ)) (hb : Reader.IsCloser b) : Leaves (x ++ [b]) τ := by
  rw [Leaves, after?_append, hx]
  show after? _ [b] = _
  rw [after?_cons, step_closer hb, List.head?_cons, if_pos rfl]
  rfl

theorem opener (hb : b = ascii '{' ∨ b = ascii '[') : Leaves [b] [closing b] := by
  rw [Leaves, after?_cons, top, step_opener hb]
  rfl

/-- The text of a container goes on to the bracket that closes it. -/
theorem exists_close (h : Leaves (x ++ y) []) (hx : Leaves x [c]) :
    ∃ z w, y = z ++ c :: w ∧ Leaves z [] ∧ Leaves w [] :=
  exists_closing (σ := []) (h.rest hx) (Nat.le_refl _)

/-- A text in which nothing stays open does not begin with a closing bracket. -/
theorem not_closer (h : Leaves (x ++ b :: y) []) (hx : Leaves x []) : ¬ Reader.IsCloser b := by
  intro hb
  have hrest := h.rest hx
  rw [show (⟨[], .outside⟩ : Nesting) = top from rfl, after?_closer hb] at hrest
  cases hrest

end Leaves

/-- The front of a text ends before a byte, or it holds the byte. -/
theorem append_eq_append_cons {c : UInt8} {x y r r' : List UInt8} (h : x ++ r = y ++ c :: r') :
    (∃ z, y = x ++ z ∧ r = z ++ c :: r') ∨ ∃ z, x = y ++ c :: z := by
  rcases List.append_eq_append_iff.1 h with ⟨z, hy, hr⟩ | ⟨z, hx, hr⟩
  · exact .inl ⟨z, hy, hr⟩
  · cases z with
    | nil => exact .inl ⟨[], by simpa using hx.symm, by simpa using hr.symm⟩
    | cons a z =>
      obtain ⟨rfl, -⟩ := List.cons.inj hr
      exact .inr ⟨z, hx⟩

/-- The closing brackets that a token owes. -/
def TokenKind.owes : TokenKind → List UInt8
  | .symbol b => [Nesting.closing b]
  | _ => []

/-- A token that closes no bracket opens one, or it is a string, or its bytes are passed one by
one. -/
theorem Grammar.Spells.opens_or_inert {k : TokenKind} {x : List UInt8} (h : Spells k x)
    (hk : ∀ b, k = .symbol b → ¬ Reader.IsCloser b) :
    (∃ b, (b = ascii '{' ∨ b = ascii '[') ∧ k = .symbol b ∧ x = [b]) ∨
      k.owes = [] ∧ ((∀ b ∈ x, IsInert b) ∨ ∃ q : StringToken, x = Quotation.bytes q) := by
  cases h with
  | bracket b hb =>
    simp only [TokenKind.isBracket, Bool.or_eq_true, beq_iff_eq] at hb
    rcases hb with ((rfl | rfl) | rfl) | rfl
    · exact .inl ⟨_, .inl rfl, rfl, rfl⟩
    · exact absurd (.inl rfl) (hk _ rfl)
    · exact .inl ⟨_, .inr rfl, rfl, rfl⟩
    · exact absurd (.inr rfl) (hk _ rfl)
  | value t ht =>
    right
    cases t with
    | null => exact ⟨rfl, .inl (show ∀ b ∈ Utf8.ofString "null", IsInert b by decide +kernel)⟩
    | bool b =>
      cases b
      · exact ⟨rfl, .inl (show ∀ b ∈ Utf8.ofString "false", IsInert b by decide +kernel)⟩
      · exact ⟨rfl, .inl (show ∀ b ∈ Utf8.ofString "true", IsInert b by decide +kernel)⟩
    | number n =>
      exact ⟨rfl, .inl fun b hb => isInert_of_number b ((Numeral.isRun n).number b hb)⟩
    | string q => exact ⟨rfl, .inr ⟨q, rfl⟩⟩
    | array pad items => simp [Tree.tail] at ht
    | object pad members => simp [Tree.tail] at ht

/-- A token that closes no bracket leaves open what it opens. -/
theorem Grammar.Spells.leaves {k : TokenKind} {x : List UInt8} (h : Spells k x)
    (hk : ∀ b, k = .symbol b → ¬ Reader.IsCloser b) : Leaves x k.owes := by
  rcases h.opens_or_inert hk with ⟨b, hb, rfl, rfl⟩ | ⟨howes, hx⟩
  · exact .opener hb
  · rw [howes]
    rcases hx with hx | ⟨q, rfl⟩
    · exact .of_unmarked fun b hb => (hx b hb).toIsUnmarked
    · exact Nesting.after?_stringBody q.isBody

/-- A token that begins in a text ends in it, if what follows the text ends an item. -/
theorem Grammar.Spells.within {k : TokenKind} {c : UInt8} {x y r r' : List UInt8}
    (h : Spells k x) (hk : ∀ b, k = .symbol b → ¬ Reader.IsCloser b) (hy : Leaves y [])
    (hc : c = ascii ',' ∨ Reader.IsCloser c) (hxy : x ++ r = y ++ c :: r') :
    (∃ z, y = x ++ z ∧ r = z ++ c :: r') ∧ Leaves x k.owes := by
  refine ⟨(append_eq_append_cons hxy).resolve_right ?_, h.leaves hk⟩
  rintro ⟨z, hz⟩
  rcases h.opens_or_inert hk with ⟨b, hb, -, rfl⟩ | ⟨-, hx | ⟨q, rfl⟩⟩
  · have hmem : c ∈ [b] := hz ▸ by simp
    obtain rfl := List.mem_singleton.1 hmem
    revert hb
    rcases hc with rfl | rfl | rfl <;> decide
  · -- A word or a number holds no byte that could stand after the text.
    have hinert := hx c (hz ▸ by simp)
    rcases hc with rfl | rfl | rfl
    · exact hinert.comma rfl
    · exact hinert.closeBrace rfl
    · exact hinert.closeBracket rfl
  · cases y with
    | nil =>
      obtain ⟨rfl, -⟩ := List.cons.inj hz
      revert hc
      decide
    | cons b y =>
      -- The text would end within the string.
      have hz' : ascii '"' :: (q.raw ++ [ascii '"']) = b :: (y ++ c :: z) := hz
      obtain ⟨rfl, htext⟩ := List.cons.inj hz'
      have hbody : ∃ z, q.raw = y ++ z := by
        rcases append_eq_append_cons htext.symm with ⟨z, hraw, -⟩ | ⟨z, rfl⟩
        · exact ⟨z, hraw⟩
        · have hlen := congrArg List.length htext
          simp only [List.length_append, List.length_cons, List.length_nil] at hlen
          omega
      obtain ⟨z, hraw⟩ := hbody
      exact Nesting.after?_stringBody_prefix (hraw ▸ q.isBody) hy

end ProtoJson
