import ProtoJson.Reader.Recovery
import ProtoJson.Value

/-!
# Reading values of any shape

The fallback for members that the schema does not know. It never fails: where a value cannot be
read, `null` takes its place and the reader goes on after it. Containers nested too deeply are
such values.

The recursion is on what remains of the input. The workers return, with their result, the fact that
the recursion goes on with less; `value`, `members` and `items` are what they compute.
-/

namespace ProtoJson.Reader

/-- The value of a token that opens no container. -/
def tokenValue (s : Reader) (t : Token) : Except SyntaxError Value :=
  match t.kind with
  | .null => .ok .null
  | .bool b => .ok (.bool b)
  | .number text => (t.binary? .double text).map .number
  | .string raw escaped => (t.text? s.options raw escaped).map .string
  | .symbol _ => .error (t.error (.unexpectedToken .value t.kind.tokenClass))

/-- Takes the closing bracket of a container and gives what it holds. A comma may be announced in
front of it. -/
def close {α : Type} (s : Reader) (bracket : UInt8) (content : α) :
    Except SyntaxError α × Reader :=
  andThen (s.comma.symbol bracket) fun _ => .ok content

theorem close_progress {α : Type} (s : Reader) (bracket : UInt8) (content : α) :
    Progress s (s.close bracket content) :=
  andThen_progress (symbol_progress s.comma bracket)

/-- The end of the input is no item. -/
def endError (s : Reader) : SyntaxError := .locate (s.offset + s.rest.length) [] .unexpectedEnd

/-- What is left after a value: no more than before, and less if a comma was announced and there is
anything to read. -/
def Passed (s s' : Reader) : Prop :=
  s'.remaining ≤ s.remaining ∧
    (s.pending = some (ascii ',') → s.peek?.isSome → s'.remaining < s.remaining)

theorem Passed.of_lt {s s' : Reader} (h : s'.remaining < s.remaining) : Passed s s' :=
  ⟨Nat.le_of_lt h, fun _ _ => h⟩

theorem dropWhile_eq_of_find? {bytes : List UInt8} {b : UInt8}
    (h : bytes.find? (fun b => !isBlank b) = some b) :
    ∃ r, bytes.drop (bytes.takeWhile isBlank).length = b :: r := by
  induction bytes with
  | nil => cases h
  | cons a r ih =>
    cases ha : isBlank a with
    | true =>
      rw [List.find?_cons_of_neg (by simp [ha])] at h
      rw [List.takeWhile_cons_of_pos ha]
      simpa using ih h
    | false =>
      rw [List.find?_cons_of_pos (by simp [ha])] at h
      rw [List.takeWhile_cons_of_neg (by simp [ha])]
      cases h
      exact ⟨r, rfl⟩

/-- After an announced comma, a scan that fails leaves bytes that recovery passes, or has passed
some itself. -/
theorem scan_error_progress {s s' : Reader} {e : SyntaxError} (start : Reader)
    (h : s.scan = (.error e, s')) (hp : s.pending = some (ascii ',')) (hb : s.peek?.isSome) :
    (s'.recoverFrom start).remaining < s.remaining := by
  obtain ⟨b, hb⟩ := Option.isSome_iff_exists.1 hb
  obtain ⟨r, hr⟩ := dropWhile_eq_of_find? hb
  have hrest : s.skipBlanks.rest = b :: r := hr
  have hle : s.skipBlanks.remaining ≤ s.remaining := by
    have := length_skipBlanks_le s
    have ht : s.skipBlanks.token = s.token := rfl
    simp only [remaining, ht]
    omega
  have hlen : s.skipBlanks.remaining = 2 * (r.length + 1) + s.token.toList.length := by
    simp only [remaining, hrest, List.length_cons]
    rfl
  cases scanned_of_eq h with
  | unannounced hnone =>
    rw [hnone] at hp
    cases hp
  | @separated c _ _ _ hr h =>
    -- The separator has been passed, whatever follows it.
    obtain ⟨ht, hl, _⟩ := scanUnseparated_progress h
    have hd : s'.rest.length ≤ r.length := by
      have he : (s.skipBlanks.advance 1).rest = r := by simp [advance, hrest]
      simpa [he] using hl
    have hrem := remaining_recoverFrom_le s' start
    have ht' : s'.token = s.token := ht
    have : s'.remaining = 2 * s'.rest.length + s.token.toList.length := by
      simp only [remaining, ht']
    omega
  | closed hb _ hr h => cases scanToken_of_closer hb h hr
  | @missing p _ hp' hfirst _ h =>
    -- The byte at the cursor is none that recovery stops at.
    cases h
    obtain rfl : p = ascii ',' := Option.some.inj (hp'.symm.trans hp)
    obtain ⟨hcomma, hbrace, hbracket⟩ := hfirst b r hrest rfl
    have := remaining_recoverFrom_lt start hrest hcomma hbrace hbracket
    omega

theorem nextToken_error_passed {s s' : Reader} {e : SyntaxError}
    (h : s.nextToken = (.error e, s')) : Passed s (s'.recoverFrom s) := by
  refine ⟨?_, fun hp hb => ?_⟩
  · have := remaining_recoverFrom_le s' s
    have := (nextToken_progress h).2.1
    omega
  · unfold nextToken at h
    split at h
    · cases h
    · exact scan_error_progress s h hp hb

mutual

/-- The worker of `value`. -/
def valueStep (s : Reader) : { r : Value × Reader // Passed s r.2 } :=
  match h : s.nextToken with
  | (.error _, s₁) => ⟨(.null, s₁.recoverFrom s), nextToken_error_passed h⟩
  | (.ok t, s₁) =>
    have h₁ : s₁.remaining < s.remaining := (nextToken_progress h).2.2 t rfl
    if t.kind = .symbol (ascii '{') then
      match h' : s₁.enter t with
      | (.error _, s₂) =>
        ⟨(.null, s₂.recoverFrom s), .of_lt (Nat.lt_of_le_of_lt (remaining_recoverFrom_le s₂ s) (by
          have := enter_remaining s₁ t
          rw [h'] at this
          simpa [this] using h₁))⟩
      | (.ok _, s₂) =>
        have h₂ : s₂.remaining < s.remaining := by
          have := enter_remaining s₁ t
          rw [h'] at this
          simpa [this] using h₁
        match membersStep s₂ [] with
        | ⟨(.error _, s₃), h₃⟩ =>
          ⟨(.null, s₃.recoverFrom s), .of_lt (Nat.lt_of_le_of_lt (remaining_recoverFrom_le s₃ s)
            (Nat.lt_of_le_of_lt h₃ h₂))⟩
        | ⟨(.ok members, s₃), h₃⟩ => ⟨(.object members, s₃), .of_lt (Nat.lt_of_le_of_lt h₃ h₂)⟩
    else if t.kind = .symbol (ascii '[') then
      match h' : s₁.enter t with
      | (.error _, s₂) =>
        ⟨(.null, s₂.recoverFrom s), .of_lt (Nat.lt_of_le_of_lt (remaining_recoverFrom_le s₂ s) (by
          have := enter_remaining s₁ t
          rw [h'] at this
          simpa [this] using h₁))⟩
      | (.ok _, s₂) =>
        have h₂ : s₂.remaining < s.remaining := by
          have := enter_remaining s₁ t
          rw [h'] at this
          simpa [this] using h₁
        match itemsStep s₂ [] with
        | ⟨(.error _, s₃), h₃⟩ =>
          ⟨(.null, s₃.recoverFrom s), .of_lt (Nat.lt_of_le_of_lt (remaining_recoverFrom_le s₃ s)
            (Nat.lt_of_le_of_lt h₃ h₂))⟩
        | ⟨(.ok items, s₃), h₃⟩ => ⟨(.array items, s₃), .of_lt (Nat.lt_of_le_of_lt h₃ h₂)⟩
    else
      match tokenValue s₁ t with
      | .ok v => ⟨(v, s₁), .of_lt h₁⟩
      | .error _ =>
        ⟨(.null, s₁.recoverFrom s),
          .of_lt (Nat.lt_of_le_of_lt (remaining_recoverFrom_le s₁ s) h₁)⟩
termination_by 3 * s.remaining
decreasing_by
  · omega
  · split <;> omega

/-- The worker of `members`. -/
def membersStep (s : Reader) (before : List (String × Value)) :
    { r : Except SyntaxError (List (String × Value)) × Reader // r.2.remaining ≤ s.remaining } :=
  if s.atSymbol (ascii '}') then ⟨s.close (ascii '}') before, (close_progress s _ _).1⟩
  else
    match h : s.string with
    | (.error e, s₁) => ⟨(.error e, s₁), by
        have := (string_progress s).1
        rw [h] at this
        exact this⟩
    | (.ok key, s₁) =>
      have h₁ : s₁.remaining < s.remaining := by
        have := (string_progress s).2 key (by rw [h])
        rw [h] at this
        exact this
      match valueStep s₁.colon with
      | ⟨(v, s₂), h₂⟩ =>
        have h₂' : s₂.remaining ≤ s₁.remaining := h₂.1
        match membersStep s₂.comma (Value.insertMember key v before) with
        | ⟨r, h₃⟩ => ⟨r, by
            have : r.2.remaining ≤ s₂.remaining := h₃
            omega⟩
termination_by 3 * s.remaining
decreasing_by all_goals simp only [remaining_colon, remaining_comma]; omega

/-- The worker of `items`. -/
def itemsStep (s : Reader) (before : List Value) :
    { r : Except SyntaxError (List Value) × Reader // r.2.remaining ≤ s.remaining } :=
  if s.atSymbol (ascii ']') then ⟨s.close (ascii ']') before.reverse, (close_progress s _ _).1⟩
  else if hp : s.peek?.isSome then
    match valueStep s with
    | ⟨(v, s₁), h₁⟩ =>
      have hle : s₁.remaining ≤ s.remaining := h₁.1
      have hlt : s.pending = some (ascii ',') → s₁.remaining < s.remaining := fun h => h₁.2 h hp
      match itemsStep s₁.comma (v :: before) with
      | ⟨r, h₂⟩ => ⟨r, by
          have : r.2.remaining ≤ s₁.remaining := h₂
          omega⟩
  else ⟨(.error s.endError, s), Nat.le_refl _⟩
termination_by 3 * s.remaining + (if s.pending = some (ascii ',') then 1 else 2)
decreasing_by
  · split <;> omega
  · have hc : s₁.comma.pending = some (ascii ',') := rfl
    simp only [remaining_comma, hc, if_true]
    split
    · next h =>
      have := hlt h
      omega
    · omega

end

/-- Reads a value of any shape. -/
def value (s : Reader) : Value × Reader := (valueStep s).val

/-- Reads the members of an object up to its closing bracket, and adds them to those before. -/
def members (s : Reader) (before : List (String × Value)) :
    Except SyntaxError (List (String × Value)) × Reader := (membersStep s before).val

/-- Reads the items of an array up to its closing bracket. Those before are in reverse. -/
def items (s : Reader) (before : List Value) : Except SyntaxError (List Value) × Reader :=
  (itemsStep s before).val

/-! ## What the workers compute, without their evidence -/

/-- A value is what its first token begins. Where that fails, recovery starts over from the front.
-/
theorem value_eq (s : Reader) : s.value =
    match s.nextToken with
    | (.error _, s₁) => (.null, s₁.recoverFrom s)
    | (.ok t, s₁) =>
      if t.kind = .symbol (ascii '{') then
        match s₁.enter t with
        | (.error _, s₂) => (.null, s₂.recoverFrom s)
        | (.ok _, s₂) =>
          match s₂.members [] with
          | (.error _, s₃) => (.null, s₃.recoverFrom s)
          | (.ok members, s₃) => (.object members, s₃)
      else if t.kind = .symbol (ascii '[') then
        match s₁.enter t with
        | (.error _, s₂) => (.null, s₂.recoverFrom s)
        | (.ok _, s₂) =>
          match s₂.items [] with
          | (.error _, s₃) => (.null, s₃.recoverFrom s)
          | (.ok items, s₃) => (.array items, s₃)
      else
        match tokenValue s₁ t with
        | .ok v => (v, s₁)
        | .error _ => (.null, s₁.recoverFrom s) := by
  -- The workers differ from what they compute by their evidence alone.
  unfold value
  rw [valueStep]
  split
  · next h => simp only [h]
  · next t s₁ h =>
    simp only [h]
    split
    · split
      · next h' => simp only [h']
      · next h' =>
        simp only [h', members]
        split <;> next h'' => simp only [h'']
    · split
      · split
        · next h' => simp only [h']
        · next h' =>
          simp only [h', items]
          split <;> next h'' => simp only [h'']
      · cases s₁.tokenValue t <;> rfl

/-- Each member is a key, an announced colon and a value, and it announces a comma. -/
theorem members_eq (s : Reader) (before : List (String × Value)) : s.members before =
    if s.atSymbol (ascii '}') then s.close (ascii '}') before
    else
      match s.string with
      | (.error e, s₁) => (.error e, s₁)
      | (.ok key, s₁) =>
        let (v, s₂) := s₁.colon.value
        s₂.comma.members (Value.insertMember key v before) := by
  unfold members value
  rw [membersStep]
  split
  · rfl
  · split
    · next h => simp only [h]
    · next h =>
      simp only [h]

/-- Each item is a value, and it announces a comma. -/
theorem items_eq (s : Reader) (before : List Value) : s.items before =
    if s.atSymbol (ascii ']') then s.close (ascii ']') before.reverse
    else if s.peek?.isSome then
      let (v, s₁) := s.value
      s₁.comma.items (v :: before)
    else (.error s.endError, s) := by
  unfold items value
  rw [itemsStep]
  split
  · rfl
  · split <;> rfl

/-- Passes a value of any shape. -/
def skipValue (s : Reader) : Reader := s.value.2

end ProtoJson.Reader
