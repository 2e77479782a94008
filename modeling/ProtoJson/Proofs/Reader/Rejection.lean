import Mathlib.Logic.Function.Iterate
import ProtoJson.Proofs.Reader.Resync

/-!
# Rejected reads

A typed read is rejected if no token can be scanned, or if the next one is of another class. It may
then have passed blanks and what is announced, and it may keep a token; but every read finds the
same next token after it, and so a rejected read changes nothing for the reads that follow.
-/

namespace ProtoJson

/-- The error says that a token of another class was found. -/
def SyntaxError.IsMismatch (e : SyntaxError) : Prop :=
  ∃ expected found, e.fault = .unexpectedToken expected found

theorem SyntaxError.not_isMismatch {e : SyntaxError}
    (h : ∀ expected found, e.fault ≠ .unexpectedToken expected found) : ¬ e.IsMismatch :=
  fun ⟨expected, found, hfault⟩ => h expected found hfault

namespace Reader

/-! ## Typed reads -/

/-- A read of one token as a value of a given kind. -/
inductive TypedRead where
  | null
  | bool
  | string
  | bytes
  | integer (kind : IntegerKind)
  | binary (format : BinaryFormat)
  | enumReference
  | enumeration (e : EnumType)
  | mapKey (kind : KeyKind)
  | symbol (byte : UInt8)

namespace TypedRead

/-- What a read gives. -/
def Result : TypedRead → Type
  | null => Unit
  | bool => Bool
  | string => String
  | bytes => List UInt8
  | integer _ => Int
  | binary format => Binary format
  | enumReference => EnumReference
  | enumeration _ => EnumValue
  | mapKey _ => MapKey
  | symbol _ => Unit

/-- A read, and the reader after it. -/
def run : (q : TypedRead) → Reader → Except ReadError q.Result × Reader
  | null, s => malformed s.null
  | bool, s => malformed s.bool
  | string, s => malformed s.string
  | bytes, s => malformed s.bytes
  | integer kind, s => malformed (s.integer kind)
  | binary format, s => malformed (s.binary format)
  | enumReference, s => malformed s.enumReference
  | enumeration e, s => s.enumeration e
  | mapKey kind, s => malformed (s.mapKey kind)
  | symbol byte, s => malformed (s.symbol byte)
where
  /-- A read that can only fail with a syntax error. -/
  malformed {α : Type} (r : Except SyntaxError α × Reader) : Except ReadError α × Reader :=
    (r.1.mapError .malformed, r.2)

/-- The read is rejected with the error `e`, which leaves the reader at `s'`: no token can be
scanned, or the next one is of another class. -/
structure Rejects (q : TypedRead) (s : Reader) (e : SyntaxError) (s' : Reader) : Prop where
  run_eq : q.run s = (.error (.malformed e), s')
  cause : s.nextToken.1 = .error e ∨ e.IsMismatch

/-- Reads one after the other, each of which is rejected. -/
inductive RejectedInTurn : List TypedRead → Reader → Reader → Prop where
  | nil (s : Reader) : RejectedInTurn [] s s
  | cons {q : TypedRead} {qs : List TypedRead} {s s₁ s' : Reader} {e : SyntaxError}
    (h : q.Rejects s e s₁) (hs : RejectedInTurn qs s₁ s') : RejectedInTurn (q :: qs) s s'

/-- The reader after a read. -/
def after (q : TypedRead) (s : Reader) : Reader := (q.run s).2

end TypedRead

variable {s s' s₁ : Reader} {e : SyntaxError} {t : Token}

/-! ## The next token after a failure -/

theorem rest_skipBlanks (s : Reader) : s.skipBlanks.rest = s.rest.dropWhile isBlank := by
  have hdrop : (s.rest.takeWhile isBlank ++ s.rest.dropWhile isBlank).drop
      (s.rest.takeWhile isBlank).length = s.rest.dropWhile isBlank := List.drop_left
  rwa [List.takeWhile_append_dropWhile] at hdrop

theorem skipBlanks_skipBlanks (s : Reader) : s.skipBlanks.skipBlanks = s.skipBlanks := by
  have hnone : s.skipBlanks.rest.takeWhile isBlank = [] := by
    rw [rest_skipBlanks]
    exact List.takeWhile_eq_nil_iff.2 fun hpos => List.dropWhile_get_zero_not _ _ hpos
  rw [skipBlanks.eq_def s.skipBlanks, hnone]
  rfl

/-- Blanks that are passed before a scan may be passed beforehand. -/
theorem scanUnseparated_skipBlanks (s : Reader) :
    s.skipBlanks.scanUnseparated = s.scanUnseparated := by
  rw [scanUnseparated, scanUnseparated, skipBlanks_skipBlanks]

theorem scan_skipBlanks (s : Reader) : s.skipBlanks.scan = s.scan := by
  have hpending : s.skipBlanks.pending = s.pending := rfl
  rw [scan, scan, hpending, skipBlanks_skipBlanks, scanUnseparated_skipBlanks]

/-- Where nothing is announced, a scan that has failed fails again from where it has left the
reader. -/
theorem scan_of_scanUnseparated_error (h : s.scanUnseparated = (.error e, s'))
    (hp : s.pending = none) : s'.scan = (.error e, s') := by
  obtain rfl := scanUnseparated_error h
  rw [scan_skipBlanks, scan, hp]
  exact h

/-- A scan that has failed fails again from where it has left the reader. -/
theorem scan_of_error (h : s.scan = (.error e, s')) : s'.scan = (.error e, s') := by
  have hskip : s' = s.skipBlanks → s'.scan = (.error e, s') := by
    rintro rfl
    rw [scan_skipBlanks]
    exact h
  cases scanned_of_eq h with
  | unannounced hp h => exact scan_of_scanUnseparated_error h hp
  -- The separator is taken, and none is announced any more.
  | separated _ _ _ h => exact scan_of_scanUnseparated_error h rfl
  -- A closing bracket is always a token.
  | closed hb _ hr h => cases scanToken_of_closer hb h hr
  | missing _ _ _ h =>
    cases h
    exact hskip rfl

/-! ## The next token -/

theorem nextToken_of_error (h : s.nextToken = (.error e, s')) :
    s'.nextToken = (.error e, s') := by
  rw [nextToken] at h
  split at h
  · cases h
  · next hnone =>
    have htoken : s'.token = none := (scan_progress h).1.trans hnone
    rw [nextToken, htoken]
    exact scan_of_error h

/-- A token that was taken is the next one if it is put back. -/
theorem nextToken_put_back (h : s.nextToken = (.ok t, s₁)) :
    { s₁ with token := some t }.nextToken = (.ok t, s₁) := by
  have htoken : s₁.token = none := (nextToken_progress h).1
  obtain ⟨options, rest, offset, token, pending, depth⟩ := s₁
  cases htoken
  rfl

theorem attempt_congr (h : s₁.nextToken = s.nextToken) : s₁.attempt = s.attempt := by
  rw [attempt, attempt, h]

/-- The options are the same, and so is the number of containers that are open. -/
def SameSetting (s s' : Reader) : Prop := s'.options = s.options ∧ s'.depth = s.depth

theorem sameSetting_scanToken (s : Reader) : s.SameSetting s.scanToken.2 := by
  rw [scanToken]
  split <;> exact ⟨rfl, rfl⟩

theorem sameSetting_scanUnseparated (s : Reader) : s.SameSetting s.scanUnseparated.2 := by
  rw [scanUnseparated]
  split
  · exact ⟨rfl, rfl⟩
  · split
    · exact ⟨rfl, rfl⟩
    · exact sameSetting_scanToken s.skipBlanks

theorem sameSetting_scan (s : Reader) : s.SameSetting s.scan.2 := by
  cases scanned s with
  | unannounced _ h => exact h ▸ sameSetting_scanUnseparated s
  | separated _ _ _ h =>
    exact h ▸ sameSetting_scanUnseparated { s.skipBlanks.advance 1 with pending := none }
  | closed _ _ _ h => exact h ▸ sameSetting_scanToken { s.skipBlanks with pending := none }
  | missing _ _ _ h => exact h ▸ ⟨rfl, rfl⟩

theorem sameSetting_nextToken (s : Reader) : s.SameSetting s.nextToken.2 := by
  rw [nextToken]
  split
  · exact ⟨rfl, rfl⟩
  · exact sameSetting_scan s

/-! ## The outcomes of a typed read -/

/-- How a read can come out: no token can be scanned, or the next token is of another class and is
put back, or it is taken. What goes wrong with a token that is taken is no mismatch. -/
inductive Outcome (s : Reader) {α : Type} : Except ReadError α × Reader → Prop where
  | unscanned {e : SyntaxError} {s' : Reader} (h : s.nextToken = (.error e, s')) :
    Outcome s (.error (.malformed e), s')
  | putBack {t : Token} {s₁ : Reader} (h : s.nextToken = (.ok t, s₁)) (expected : TokenClass) :
    Outcome s (.error (.malformed (t.error (.unexpectedToken expected t.kind.tokenClass))),
      { s₁ with token := some t })
  | taken {t : Token} {s₁ s' : Reader} {res : Except ReadError α} (h : s.nextToken = (.ok t, s₁))
    (hres : ∀ e, res = .error (.malformed e) → ¬ e.IsMismatch) : Outcome s (res, s')

section

variable {t : Token}

theorem not_isMismatch_text? {options : ReadOptions} {raw : List UInt8} {escaped : Bool}
    (h : t.text? options raw escaped = .error e) : ¬ e.IsMismatch := by
  unfold Token.text? at h
  split at h
  · cases h
    exact SyntaxError.not_isMismatch fun _ _ h => by cases h
  · split at h
    · split at h
      · cases h
      · cases h
        exact SyntaxError.not_isMismatch fun _ _ h => by cases h
    · cases h

theorem not_isMismatch_integer? {kind : IntegerKind} {text : List Char}
    (h : t.integer? kind text = .error e) : ¬ e.IsMismatch := by
  unfold Token.integer? at h
  split at h
  · cases h
  · cases h
    exact SyntaxError.not_isMismatch fun _ _ h => by cases h

theorem not_isMismatch_binary? {fmt : BinaryFormat} {text : List Char}
    (h : t.binary? fmt text = .error e) : ¬ e.IsMismatch := by
  unfold Token.binary? at h
  split at h
  · cases h
  · cases h
    exact SyntaxError.not_isMismatch fun _ _ h => by cases h

end

theorem of_map_error {ε α β : Type} {r : Except ε α} {g : α → β} {e : ε}
    (h : r.map g = .error e) : r = .error e := by
  cases r with
  | error e' =>
    cases h
    rfl
  | ok a => cases h

/-- A read of one token comes out in one of these ways if its conversion fails with no mismatch. -/
theorem outcome_andThen {α β : Type} (s : Reader) (c : TokenClass) {accept : TokenKind → Option α}
    {f : Token × α → Except SyntaxError β}
    (hf : ∀ t a e, f (t, a) = .error e → ¬ e.IsMismatch) :
    Outcome s (TypedRead.run.malformed (andThen (s.expect c accept) f)) := by
  rw [expect]
  rcases hnext : s.nextToken with ⟨e | t, s₁⟩
  · exact .unscanned hnext
  · dsimp only
    cases ha : accept t.kind with
    | none => exact .putBack hnext c
    | some a =>
      refine .taken hnext fun e he => ?_
      dsimp only [andThen, Except.bind] at he
      cases hfa : f (t, a) with
      | ok b =>
        rw [hfa] at he
        cases he
      | error e' =>
        rw [hfa] at he
        cases he
        exact hf t a _ hfa

theorem outcome_enumReference (s : Reader) :
    Outcome s (TypedRead.run.malformed s.enumReference) := by
  apply outcome_andThen
  rintro t (⟨raw, escaped⟩ | text) e he
  · exact not_isMismatch_text? (of_map_error he)
  · exact not_isMismatch_integer? (of_map_error he)

theorem outcome_enumeration (s : Reader) (e : EnumType) : Outcome s (s.enumeration e) := by
  have houtcome := outcome_enumReference s
  unfold enumeration
  rcases href : s.enumReference with ⟨err | ref, s₁⟩ <;> rw [href] at houtcome
  · cases houtcome with
    | unscanned h => exact .unscanned h
    | putBack h c => exact .putBack h c
    | taken h hres =>
      refine .taken h fun e he => hres e ?_
      cases he
      rfl
  · -- A value that is not declared is no syntax error.
    cases houtcome with
    | taken h hres =>
      cases ref with
      | name name =>
        dsimp only
        split
        · exact .taken h fun _ he => by cases he
        · exact .taken h fun _ he => by cases he
      | number n =>
        dsimp only
        split
        · exact .taken h fun _ he => by cases he
        · exact .taken h fun _ he => by cases he

theorem outcome_symbol (s : Reader) (b : UInt8) :
    Outcome s (TypedRead.run.malformed (s.symbol b)) := by
  rw [symbol, expect]
  rcases hnext : s.nextToken with ⟨e | t, s₁⟩
  · exact .unscanned hnext
  · dsimp only
    by_cases hk : t.kind = .symbol b
    · rw [if_pos hk]
      refine .taken hnext fun e he => ?_
      dsimp only at he
      split at he
      · rw [enter] at he
        split at he
        · cases he
        · cases he
          exact SyntaxError.not_isMismatch fun _ _ h => by cases h
      · split at he <;> cases he
    · rw [if_neg hk]
      exact .putBack hnext (.symbol b)

/-- Every typed read comes out in one of these ways. -/
theorem TypedRead.outcome (q : TypedRead) (s : Reader) : Outcome s (q.run s) := by
  cases q with
  | null => exact outcome_andThen s .null fun _ _ _ he => by cases he
  | bool => exact outcome_andThen s .bool fun _ _ _ he => by cases he
  | string => exact outcome_andThen s .string fun _ _ _ he => not_isMismatch_text? he
  | bytes =>
    apply outcome_andThen
    intro t a e he
    dsimp only at he
    split at he
    · split at he
      · cases he
      · cases he
        exact SyntaxError.not_isMismatch fun _ _ h => by cases h
    · cases he
  | integer kind => exact outcome_andThen s .number fun _ _ _ he => not_isMismatch_integer? he
  | binary format => exact outcome_andThen s .number fun _ _ _ he => not_isMismatch_binary? he
  | enumReference => exact outcome_enumReference s
  | enumeration e => exact outcome_enumeration s e
  | mapKey kind =>
    apply outcome_andThen
    intro t a e he
    -- The escapes of a key are decoded before the key is read as one of its kind.
    cases htext : t.text? s.options a.1 a.2 with
    | error e' =>
      dsimp only at he
      rw [htext] at he
      cases he
      exact not_isMismatch_text? htext
    | ok text =>
      dsimp only at he
      rw [htext] at he
      simp only [Except.bind] at he
      split at he
      · cases he
      · cases he
        exact SyntaxError.not_isMismatch fun _ _ h => by cases h
  | symbol b => exact outcome_symbol s b

/-! ## Rejected reads -/

/-- A read depends on the next token and on the options alone. -/
theorem TypedRead.run_congr (q : TypedRead) (hnext : s'.nextToken = s.nextToken)
    (hoptions : s'.options = s.options) : q.run s' = q.run s := by
  have hexpect : ∀ {α : Type} (c : TokenClass) (accept : TokenKind → Option α),
      s'.expect c accept = s.expect c accept := by
    intro α c accept
    rw [expect, expect, hnext]
  have href : s'.enumReference = s.enumReference := by
    rw [Reader.enumReference, Reader.enumReference, hexpect, hoptions]
  cases q with
  | null => rw [run, run, Reader.null, Reader.null, hexpect]
  | bool => rw [run, run, Reader.bool, Reader.bool, hexpect]
  | string => rw [run, run, Reader.string, Reader.string, hexpect, hoptions]
  | bytes => rw [run, run, Reader.bytes, Reader.bytes, hexpect, hoptions]
  | integer kind => rw [run, run, Reader.integer, Reader.integer, hexpect]
  | binary format => rw [run, run, Reader.binary, Reader.binary, hexpect]
  | enumReference => rw [run, run, href]
  | enumeration e => rw [run, run, Reader.enumeration, Reader.enumeration, href]
  | mapKey kind => rw [run, run, Reader.mapKey, Reader.mapKey, hexpect, hoptions]
  | symbol byte => rw [run, run, Reader.symbol, Reader.symbol, hexpect]

/-- After a read that is rejected, the next token is what it was before. -/
theorem TypedRead.Rejects.nextToken_eq {r : TypedRead} (h : r.Rejects s e s') :
    s'.nextToken = s.nextToken ∧ s'.options = s.options := by
  have houtcome := r.outcome s
  have hoptions := (sameSetting_nextToken s).1
  rw [h.run_eq] at houtcome
  generalize hres : (Except.error (ReadError.malformed e) : Except ReadError r.Result) = res
    at houtcome
  cases houtcome with
  | unscanned hnext =>
    rw [hnext] at hoptions ⊢
    exact ⟨nextToken_of_error hnext, hoptions⟩
  | putBack hnext c =>
    rw [hnext] at hoptions ⊢
    exact ⟨nextToken_put_back hnext, hoptions⟩
  | taken hnext hno =>
    -- Neither has the scan failed nor is there a mismatch.
    rcases h.cause with hcause | hcause
    · rw [hnext] at hcause
      cases hcause
    · exact absurd hcause (hno e hres.symm)

/-- Every read comes out the same after a read that is rejected. -/
theorem TypedRead.Rejects.run_eq_run {r : TypedRead} (h : r.Rejects s e s') (q : TypedRead) :
    q.run s' = q.run s :=
  q.run_congr h.nextToken_eq.1 h.nextToken_eq.2

theorem TypedRead.RejectedInTurn.run_eq_run {rs : List TypedRead} (h : RejectedInTurn rs s s')
    (q : TypedRead) : q.run s' = q.run s := by
  induction h with
  | nil => rfl
  | cons h _ ih => exact ih.trans (h.run_eq_run q)

theorem TypedRead.Rejects.iterate_after {r : TypedRead} (h : r.Rejects s e s') (n : Nat) :
    r.run (r.after^[n] s) = (.error (.malformed e), s') := by
  induction n with
  | zero => exact h.run_eq
  | succ n ih =>
    rw [Function.iterate_succ_apply', after, ih]
    exact (h.run_eq_run r).trans h.run_eq

/-- A read that is rejected changes nothing for the reads that follow it: each gives the same result
or the same error and leaves the reader in the same state as without it. So a rejected read fails in
the same way however often it is repeated, and any number of rejected reads may come before a
read. -/
theorem TypedRead.run_of_rejects {r : TypedRead} (h : r.Rejects s e s') :
    (∀ q : TypedRead, q.run s' = q.run s) ∧
      (∀ n, r.run (r.after^[n] s) = (.error (.malformed e), s')) ∧
        ∀ rs s₁, RejectedInTurn rs s' s₁ → ∀ q : TypedRead, q.run s₁ = q.run s :=
  ⟨h.run_eq_run, h.iterate_after, fun _ _ hs q => (hs.run_eq_run q).trans (h.run_eq_run q)⟩

/-- An item of which only the front of a word is there, after the comma that is announced. -/
def cutWord : Reader :=
  { rest := Utf8.ofString " , tru", pending := some (ascii ','), depth := 1 }

/-- What a read of the word leaves: the comma is taken before the word is found to be none. -/
def cutWordLeft : Reader := { rest := Utf8.ofString "tru", offset := 3, depth := 1 }

/-- What is wrong with the word. -/
def cutWordError : SyntaxError := .locate 3 (Utf8.ofString "tru") .invalidLiteral

/-- However often the word is asked for, the comma is not asked for again. -/
theorem TypedRead.run_of_rejects_cutWord :
    TypedRead.bool.Rejects cutWord cutWordError cutWordLeft ∧
      (∀ q : TypedRead, q.run cutWordLeft = q.run cutWord) ∧
      (∀ n, TypedRead.bool.run (TypedRead.bool.after^[n] cutWord)
        = (.error (.malformed cutWordError), cutWordLeft)) ∧
      RejectedInTurn [.null, .bytes] cutWordLeft cutWordLeft := by
  have hrejects : TypedRead.bool.Rejects cutWord cutWordError cutWordLeft := ⟨rfl, .inl rfl⟩
  obtain ⟨hread, hagain, -⟩ := run_of_rejects hrejects
  exact ⟨hrejects, hread, hagain, .cons ⟨rfl, .inl rfl⟩ (.cons ⟨rfl, .inl rfl⟩ (.nil _))⟩

end Reader

end ProtoJson
