import ProtoJson.Proofs.Source.Literal
import ProtoJson.Proofs.Text.Quoted
import ProtoJson.Proofs.Text.WordCase

/-!
# Brackets in source text

A scanner of source text that keeps the brackets that are open outside literals and comments, as the
language reads them. What a text closes and opens does not depend on what is open around it, so the
brackets of a text are put together from those of its parts.
-/

namespace ProtoJson

/-! ## The scanner -/

inductive Bracket where
  | round
  | square
  | curly
  deriving DecidableEq, Repr

namespace Bracket

/-- The bracket that a character opens. -/
def opened? (c : Char) : Option Bracket :=
  if c = '(' then some round
  else if c = '[' then some square
  else if c = '\x7b' then some curly
  else none

/-- The bracket that a character closes. -/
def closed? (c : Char) : Option Bracket :=
  if c = ')' then some round
  else if c = ']' then some square
  else if c = '\x7d' then some curly
  else none

end Bracket

/-- What the scanner is in. -/
inductive Region where
  /-- Outside literals and comments. `marked` says that a quote would begin a raw literal. -/
  | code (marked : Bool)
  /-- Behind a slash, which may begin a comment. -/
  | slash
  | comment
  | literal
  /-- Behind a backslash of a literal. -/
  | escape
  /-- Behind an apostrophe, which begins a character literal or a lifetime. -/
  | apostrophe
  /-- Behind an apostrophe and a character. -/
  | character (c : Char)
  /-- Behind an apostrophe and a backslash. -/
  | characterEscape
  /-- In a character literal, behind the first character of its escape. -/
  | characterEnd
  deriving DecidableEq, Repr

/-- Where the scanner is, and the brackets that are open there, the innermost first. -/
abbrev ScanState := Region × List Bracket

/-- Reads a character outside literals and comments. There is nothing to read if a bracket closes
another one than was opened last. Raw literals are not read. -/
def scanCode (marked : Bool) (stack : List Bracket) (c : Char) : Option ScanState :=
  if c = '"' then if marked then none else some (.literal, stack)
  else if c = '\x27' then some (.apostrophe, stack)
  else if c = '/' then some (.slash, stack)
  else
    match Bracket.opened? c, Bracket.closed? c with
    | some b, _ => some (.code false, b :: stack)
    | none, some b => if stack.head? = some b then some (.code false, stack.tail) else none
    | none, none => some (.code (c = 'r' ∨ c = '#'), stack)

/-- Reads a character. Comments in brackets of their own are not read. -/
def scanChar : ScanState → Char → Option ScanState
  | (.code marked, stack), c => scanCode marked stack c
  | (.slash, stack), c =>
    if c = '/' then some (.comment, stack)
    else if c = '*' then none
    else scanCode false stack c
  | (.comment, stack), c => some (if c = '\n' then .code false else .comment, stack)
  | (.literal, stack), c =>
    some (if c = '"' then .code false else if c = '\\' then .escape else .literal, stack)
  | (.escape, stack), _ => some (.literal, stack)
  | (.apostrophe, stack), c =>
    some (if c = '\\' then .characterEscape else .character c, stack)
  | (.character d, stack), c =>
    if c = '\x27' then some (.code false, stack)
    else if d.isAlphanum ∨ d = '_' then scanCode (d = 'r') stack c
    else none
  | (.characterEscape, stack), _ => some (.characterEnd, stack)
  | (.characterEnd, stack), c =>
    some (if c = '\x27' then .code false else .characterEnd, stack)

/-- Reads a text. -/
def scan (s : ScanState) (cs : List Char) : Option ScanState := cs.foldlM scanChar s

/-- Outside literals and comments, every bracket that closes is of the kind of the one that was
opened last, and in the end none is open. -/
def IsMatched (text : String) : Prop :=
  ∃ marked, scan (.code false, []) text.toList = some (.code marked, [])

example : IsMatched "[b'(', '\\''] \x7b \"\\\"]\" \x7d // )\n" := ⟨false, by decide +kernel⟩

example : ¬IsMatched "(\x7b)\x7d" := by
  rintro ⟨marked, h⟩
  cases marked <;> exact absurd h (by decide +kernel)

@[simp] theorem scan_nil (s : ScanState) : scan s [] = some s := rfl

theorem scan_cons (s : ScanState) (c : Char) (cs : List Char) :
    scan s (c :: cs) = (scanChar s c).bind (scan · cs) := rfl

theorem scan_append (s : ScanState) (cs ds : List Char) :
    scan s (cs ++ ds) = (scan s cs).bind (scan · ds) := List.foldlM_append

/-! ### What is open around a text -/

theorem scanCode_frame {marked : Bool} {stack stack' : List Bracket} {c : Char} {r : Region}
    (h : scanCode marked stack c = some (r, stack')) (below : List Bracket) :
    scanCode marked (stack ++ below) c = some (r, stack' ++ below) := by
  unfold scanCode at h ⊢
  split_ifs at h ⊢ <;> try (cases h; rfl)
  -- Of the brackets that are open, only the innermost is looked at, to be closed.
  split at h
  · cases h
    rfl
  · split at h
    · next b _ _ hhead =>
      obtain ⟨stack, rfl⟩ := List.head?_eq_some_iff.1 hhead
      cases h
      rw [List.cons_append, List.head?_cons, if_pos rfl]
      rfl
    · cases h
  · cases h
    rfl

theorem scanChar_frame {s : ScanState} {c : Char} {r : Region} {stack' : List Bracket}
    (h : scanChar s c = some (r, stack')) (below : List Bracket) :
    scanChar (s.1, s.2 ++ below) c = some (r, stack' ++ below) := by
  obtain ⟨region, stack⟩ := s
  cases region with
  | code marked => exact scanCode_frame h below
  | slash =>
    simp only [scanChar] at h ⊢
    split_ifs at h ⊢
    · cases h
      rfl
    · exact scanCode_frame h below
  | character d =>
    simp only [scanChar] at h ⊢
    split_ifs at h ⊢
    · cases h
      rfl
    · exact scanCode_frame h below
  | _ =>
    cases h
    rfl

/-- A text that can be read can be so with more brackets open around it, and leaves these alone. -/
theorem scan_frame {s : ScanState} {cs : List Char} {r : Region} {stack' : List Bracket}
    (h : scan s cs = some (r, stack')) (below : List Bracket) :
    scan (s.1, s.2 ++ below) cs = some (r, stack' ++ below) := by
  induction cs generalizing s with
  | nil =>
    cases h
    rfl
  | cons c cs ih =>
    rw [scan_cons] at h
    obtain ⟨⟨r₁, stack₁⟩, hc, hcs⟩ := Option.bind_eq_some_iff.1 h
    rw [scan_cons, scanChar_frame hc below]
    exact ih hcs

/-! ### What is in front of a text -/

/-- Without a mark in front, everything can be read that can be so with one. -/
theorem scanCode_of_marked {stack : List Bracket} {c : Char} {s : ScanState}
    (h : scanCode true stack c = some s) (marked : Bool) : scanCode marked stack c = some s := by
  unfold scanCode at h ⊢
  by_cases hquote : c = '"'
  · rw [if_pos hquote, if_pos rfl] at h
    cases h
  · rw [if_neg hquote] at h ⊢
    exact h

theorem scan_of_marked {stack : List Bracket} {cs : List Char} {s : ScanState} (hne : cs ≠ [])
    (h : scan (.code true, stack) cs = some s) (marked : Bool) :
    scan (.code marked, stack) cs = some s := by
  obtain ⟨c, cs, rfl⟩ := List.exists_cons_of_ne_nil hne
  rw [scan_cons] at h
  obtain ⟨s₁, hc, hcs⟩ := Option.bind_eq_some_iff.1 h
  rw [scan_cons, scanChar, scanCode_of_marked hc marked]
  exact hcs

/-! ## Parts of a text -/

/-- The text closes the brackets `before` and leaves the brackets `after` open, whatever is in front
of it and whatever is open around it. -/
def Turns (before after : List Bracket) (text : String) : Prop :=
  ∀ marked stack, ∃ marked',
    scan (.code marked, before ++ stack) text.toList = some (.code marked', after ++ stack)

/-- The text closes what it opens. -/
def IsBalanced (text : String) : Prop := Turns [] [] text

/-- The brackets that are open after a text, where `stack` is open before it. -/
def openAfter? (stack : List Bracket) (cs : List Char) : Option (List Bracket) :=
  match scan (.code true, stack) cs with
  | some (.code _, stack') => some stack'
  | _ => none

theorem scan_of_openAfter? {before after : List Bracket} {cs : List Char}
    (h : openAfter? before cs = some after) (marked : Bool) (stack : List Bracket) :
    ∃ marked', scan (.code marked, before ++ stack) cs = some (.code marked', after ++ stack) := by
  unfold openAfter? at h
  split at h
  · next m stack' hscan =>
    cases h
    by_cases hne : cs = []
    · -- An empty text keeps the mark in front of it.
      subst hne
      cases hscan
      exact ⟨marked, rfl⟩
    · exact ⟨m, scan_of_marked hne (scan_frame hscan stack) marked⟩
  · cases h

namespace Turns

variable {before between after : List Bracket} {s t : String}

/-- A text without variable parts is read as it stands. -/
theorem fixed {cs : List Char} (h : openAfter? before cs = some after) :
    Turns before after (String.ofList cs) := by
  intro marked stack
  rw [String.toList_ofList]
  exact scan_of_openAfter? h marked stack

theorem append (hs : Turns before between s) (ht : Turns between after t) :
    Turns before after (s ++ t) := by
  intro marked stack
  obtain ⟨marked₁, hs⟩ := hs marked stack
  obtain ⟨marked₂, ht⟩ := ht marked₁ stack
  refine ⟨marked₂, ?_⟩
  rw [String.toList_append, scan_append, hs]
  exact ht

theorem frame (h : Turns before after s) (below : List Bracket) :
    Turns (before ++ below) (after ++ below) s := by
  intro marked stack
  rw [List.append_assoc, List.append_assoc]
  exact h marked (below ++ stack)

/-- A variable part that closes what it opens, and the fixed part behind it. -/
theorem part {cs : List Char} (hs : Turns before between s) (ht : IsBalanced t)
    (h : openAfter? between cs = some after) : Turns before after (s ++ t ++ String.ofList cs) :=
  (hs.append (ht.frame between)).append (fixed h)

end Turns

namespace IsBalanced

variable {s t : String}

theorem fixed {cs : List Char} (h : openAfter? [] cs = some []) : IsBalanced (String.ofList cs) :=
  Turns.fixed h

theorem append (hs : IsBalanced s) (ht : IsBalanced t) : IsBalanced (s ++ t) := Turns.append hs ht

/-- A variable part with something fixed on both sides. -/
theorem around {as bs : List Char} {between : List Bracket} (ha : openAfter? [] as = some between)
    (hs : IsBalanced s) (hb : openAfter? between bs = some []) :
    IsBalanced (String.ofList as ++ s ++ String.ofList bs) :=
  .part (.fixed ha) hs hb

end IsBalanced

/-! ## Names -/

/-- A character that is part of no bracket, literal or comment. -/
def IsPlainChar (c : Char) : Prop := c ∉ ['"', '\x27', '/', '(', ')', '[', ']', '\x7b', '\x7d']
deriving Decidable

theorem scanCode_of_isPlainChar {c : Char} (h : IsPlainChar c) (marked : Bool)
    (stack : List Bracket) :
    scanCode marked stack c = some (.code (c = 'r' ∨ c = '#'), stack) := by
  simp only [IsPlainChar, List.mem_cons, List.not_mem_nil, not_or, not_false_eq_true] at h
  simp [scanCode, Bracket.opened?, Bracket.closed?, h]

/-- A text of plain characters opens and closes nothing. -/
theorem isBalanced_of_plain {s : String} (h : ∀ c ∈ s.toList, IsPlainChar c) : IsBalanced s := by
  intro marked stack
  generalize s.toList = cs at h
  induction cs generalizing marked with
  | nil => exact ⟨marked, rfl⟩
  | cons c cs ih =>
    rw [scan_cons, scanChar, scanCode_of_isPlainChar (h c List.mem_cons_self)]
    exact ih _ fun d hd => h d (List.mem_cons_of_mem c hd)

theorem IsIdentifierChar.isPlainChar {c : Char} (h : IsIdentifierChar c) : IsPlainChar c := by
  intro hmem
  simp only [List.mem_cons, List.not_mem_nil, or_false] at hmem
  rcases hmem with rfl | rfl | rfl | rfl | rfl | rfl | rfl | rfl | rfl <;>
    exact absurd h (by decide)

theorem isBalanced_memberIdentifier (name : String) : IsBalanced (memberIdentifier name) :=
  isBalanced_of_plain fun _ hc => (mem_memberIdentifier hc).isPlainChar

theorem isBalanced_variantIdentifier (name : String) : IsBalanced (variantIdentifier name) :=
  isBalanced_of_plain fun _ hc => (mem_variantIdentifier hc).isPlainChar

/-! ## Literals -/

/-- Reading goes on in a literal. -/
def InLiteral (cs : List Char) : Prop := ∀ stack, scan (.literal, stack) cs = some (.literal, stack)

theorem inLiteral_char {c : Char} (hquote : c ≠ '"') (hslash : c ≠ '\\') : InLiteral [c] := by
  intro stack
  simp [scan_cons, scanChar, hquote, hslash]

theorem inLiteral_escape (mark : Char) : InLiteral ['\\', mark] := fun _ => rfl

theorem InLiteral.append {cs ds : List Char} (hc : InLiteral cs) (hd : InLiteral ds) :
    InLiteral (cs ++ ds) := by
  intro stack
  rw [scan_append, hc stack]
  exact hd stack

theorem InLiteral.flatMap {α : Type} {as : List α} {g : α → List Char}
    (h : ∀ a ∈ as, InLiteral (g a)) : InLiteral (as.flatMap g) := by
  induction as with
  | nil => exact fun _ => rfl
  | cons a as ih =>
    rw [List.flatMap_cons]
    exact (h a List.mem_cons_self).append (ih fun b hb => h b (List.mem_cons_of_mem a hb))

theorem inLiteral_of_forall {cs : List Char} (h : ∀ c ∈ cs, c ≠ '"' ∧ c ≠ '\\') :
    InLiteral cs := by
  have hflat : cs = cs.flatMap fun c => [c] := by simp
  rw [hflat]
  exact .flatMap fun c hc => inLiteral_char (h c hc).1 (h c hc).2

theorem hexDigit_ne {n : Nat} (h : n < 16) : hexDigit n ≠ '"' ∧ hexDigit n ≠ '\\' := by
  have key : ∀ m < 16, hexDigit m ≠ '"' ∧ hexDigit m ≠ '\\' := by decide
  exact key n h

theorem mem_hexDigits_ne {n : Nat} {d : Char} (h : d ∈ hexDigits n) : d ≠ '"' ∧ d ≠ '\\' := by
  induction n using Nat.strongRecOn with
  | ind n ih =>
    rw [hexDigits] at h
    split at h
    · next hlt =>
      rw [List.mem_singleton.1 h]
      exact hexDigit_ne hlt
    · rcases List.mem_append.1 h with h | h
      · exact ih (n / 16) (by omega) h
      · rw [List.mem_singleton.1 h]
        exact hexDigit_ne (Nat.mod_lt n (by decide))

/-- Behind the form of a character in quotes, the literal goes on. -/
theorem inLiteral_quoteChar (c : Char) : InLiteral (quoteChar c) := by
  unfold quoteChar
  split_ifs with hquote hslash
  case pos | pos | pos | pos | pos | pos => exact inLiteral_escape _
  · exact inLiteral_char hquote hslash
  · -- The number of the character stands in braces, which a literal takes as they are.
    have hdigits : InLiteral (hexDigits c.toNat) :=
      inLiteral_of_forall fun d hd => mem_hexDigits_ne hd
    have hopening : InLiteral (['\\', 'u'] ++ ['\x7b']) :=
      (inLiteral_escape 'u').append (inLiteral_char (by decide) (by decide))
    exact (hopening.append hdigits).append (inLiteral_char (by decide) (by decide))

/-- Behind the form of a byte, the literal goes on. -/
theorem inLiteral_literalByte (b : UInt8) : InLiteral (literalByte b) := by
  unfold literalByte
  split_ifs with hquote hslash
  · exact inLiteral_escape _
  · exact inLiteral_escape _
  · exact inLiteral_char (char_ne hquote) (char_ne hslash)
  · refine (inLiteral_escape 'x').append (inLiteral_of_forall fun d hd => ?_)
    rcases List.mem_cons.1 hd with rfl | hd
    · exact hexDigit_ne (by have := b.toNat_lt; omega)
    · rw [List.mem_singleton.1 hd]
      exact hexDigit_ne (Nat.mod_lt _ (by decide))

/-- A literal ends at the quote behind it. -/
theorem scan_literal {cs : List Char} (h : InLiteral cs) (stack : List Bracket) :
    scan (.code false, stack) ('"' :: (cs ++ ['"'])) = some (.code false, stack) := by
  have hopening : scanChar (.code false, stack) '"' = some (.literal, stack) := rfl
  rw [scan_cons, hopening, Option.bind_some, scan_append, h stack]
  rfl

theorem scan_quoted (text : String) (stack : List Bracket) :
    scan (.code false, stack) (quoted text).toList = some (.code false, stack) := by
  rw [quoted, String.toList_ofList]
  exact scan_literal (.flatMap fun c _ => inLiteral_quoteChar c) stack

theorem isBalanced_byteLiteral (bytes : List UInt8) : IsBalanced (byteLiteral bytes) := by
  intro marked stack
  have hmark : scanChar (.code marked, stack) 'b' = some (.code false, stack) :=
    scanCode_of_isPlainChar (by decide) marked stack
  refine ⟨false, ?_⟩
  rw [toList_byteLiteral, List.nil_append, scan_cons, hmark]
  exact scan_literal (.flatMap fun b _ => inLiteral_literalByte b) stack

namespace Turns

variable {before between after : List Bracket} {s : String} {cs : List Char}

/-- A literal behind a fixed part that makes it no raw one. -/
theorem literal (h : scan (.code true, before) cs = some (.code false, after)) (text : String) :
    Turns before after (String.ofList cs ++ quoted text) := by
  intro marked stack
  have hne : cs ≠ [] := by
    rintro rfl
    cases h
  refine ⟨false, ?_⟩
  rw [String.toList_append, String.toList_ofList, scan_append,
    scan_of_marked hne (scan_frame h stack) marked]
  exact scan_quoted text _

theorem partLiteral (hs : Turns before between s)
    (h : scan (.code true, between) cs = some (.code false, after)) (text : String) :
    Turns before after (s ++ String.ofList cs ++ quoted text) := by
  rw [String.append_assoc]
  exact hs.append (literal h text)

/-- A character literal, which may stand for a bracket. -/
theorem character {ds : List Char} {d : Char}
    (h : scan (.code true, before) cs = some (.apostrophe, between)) (hd : d ≠ '\\')
    (h' : openAfter? between ds = some after) :
    Turns before after (String.ofList cs ++ String.ofList [d] ++ String.ofList ('\x27' :: ds)) := by
  intro marked stack
  have hne : cs ≠ [] := by
    rintro rfl
    cases h
  have hopening : scanChar (.apostrophe, between ++ stack) d
      = some (.character d, between ++ stack) := by
    rw [scanChar, if_neg hd]
  have hclosing : scanChar (.character d, between ++ stack) '\x27'
      = some (.code false, between ++ stack) := rfl
  obtain ⟨marked', hds⟩ := scan_of_openAfter? h' false stack
  refine ⟨marked', ?_⟩
  rw [String.toList_append, String.toList_append, String.toList_ofList, String.toList_ofList,
    String.toList_ofList, scan_append, scan_append,
    scan_of_marked hne (scan_frame h stack) marked, Option.bind_some, scan_cons, hopening,
    Option.bind_some, scan_nil, Option.bind_some, scan_cons, hclosing]
  exact hds

end Turns

/-! ## Lines -/

/-- The line closes the brackets `before` and leaves the brackets `after` open. No literal and no
comment goes on behind it. -/
def Spans (before after : List Bracket) (line : String) : Prop :=
  ∀ stack, scan (.code false, before ++ stack) (line.toList ++ ['\n'])
    = some (.code false, after ++ stack)

theorem Spans.frame {before after : List Bracket} {line : String} (h : Spans before after line)
    (below : List Bracket) : Spans (before ++ below) (after ++ below) line := by
  intro stack
  rw [List.append_assoc, List.append_assoc]
  exact h (below ++ stack)

theorem scan_newline (marked : Bool) (stack : List Bracket) :
    scan (.code marked, stack) ['\n'] = some (.code false, stack) := by
  rw [scan_cons, scanChar, scanCode_of_isPlainChar (by decide)]
  rfl

/-- The text, at the beginning of a line, closes the brackets `before` and leaves the brackets
`after` open. -/
def Begins (before after : List Bracket) (text : String) : Prop :=
  ∀ stack, ∃ marked,
    scan (.code false, before ++ stack) text.toList = some (.code marked, after ++ stack)

namespace Begins

variable {before between after : List Bracket} {s t : String}

/-- A line may begin with a literal. -/
theorem quoted (text : String) : Begins before before (quoted text) :=
  fun stack => ⟨false, scan_quoted text (before ++ stack)⟩

theorem append (hs : Begins before between s) (ht : Turns between after t) :
    Begins before after (s ++ t) := by
  intro stack
  obtain ⟨marked, hs⟩ := hs stack
  rw [String.toList_append, scan_append, hs]
  exact ht marked stack

theorem spans (h : Begins before after s) : Spans before after s := by
  intro stack
  obtain ⟨marked, h⟩ := h stack
  rw [scan_append, h]
  exact scan_newline marked _

end Begins

theorem Turns.begins {before after : List Bracket} {text : String} (h : Turns before after text) :
    Begins before after text := h false

theorem Turns.spans {before after : List Bracket} {line : String} (h : Turns before after line) :
    Spans before after line := h.begins.spans

theorem IsBalanced.begins {text : String} (h : IsBalanced text) : Begins [] [] text :=
  Turns.begins h

theorem IsBalanced.spans {line : String} (h : IsBalanced line) : Spans [] [] line := Turns.spans h

/-- The text goes into a comment and does not leave it. -/
def Comments (text : String) : Prop :=
  ∀ stack, scan (.code false, stack) text.toList = some (.comment, stack)

namespace Comments

variable {s t : String}

theorem fixed {cs : List Char} (h : scan (.code false, []) cs = some (.comment, [])) :
    Comments (String.ofList cs) := by
  intro stack
  rw [String.toList_ofList]
  exact scan_frame h stack

theorem append (hs : Comments s) (ht : '\n' ∉ t.toList) : Comments (s ++ t) := by
  intro stack
  rw [String.toList_append, scan_append, hs stack, Option.bind_some]
  generalize t.toList = cs at ht
  induction cs with
  | nil => rfl
  | cons c cs ih =>
    rw [List.mem_cons, not_or] at ht
    rw [scan_cons, scanChar, if_neg (Ne.symm ht.1)]
    exact ih ht.2

/-- A comment ends with its line. -/
theorem spans (h : Comments s) : Spans [] [] s := by
  intro stack
  rw [scan_append, List.nil_append, h stack]
  rfl

end Comments

end ProtoJson
