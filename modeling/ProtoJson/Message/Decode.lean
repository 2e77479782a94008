import ProtoJson.Message.Pools
import ProtoJson.Reader.Value

/-!
# Reading messages

A message is read into an object that may hold something already: fields that the text does not
mention keep what they hold, and the others are replaced as a whole. Members with unknown keys are
passed. Messages are taken from the pools and those that are replaced go back.

Errors end the reading; what was assigned before stays. The recursion is on what remains of the
input, as for values of any shape: each worker returns, with its result, that success takes
something.
-/

namespace ProtoJson

/-- Where the value of a key goes. -/
inductive Slot where
  /-- The plain field of this index. -/
  | plain (index : Nat) (f : Field)
  /-- The member of a oneof, both by index. -/
  | member (oneof index : Nat) (f : Field)
  deriving DecidableEq, Repr

/-- The slot that a JSON key names. -/
def MessageType.slot? (type : MessageType) (key : String) : Option Slot :=
  (type.field? key).map fun f =>
    match f.oneof with
    | none => .plain (type.plainFields.findIdx (·.jsonName == key)) f
    | some j => .member j ((type.members j).findIdx (·.jsonName == key)) f

/-- Replaces what a plain field holds and returns the messages of what it held. -/
def Message.assign (schema : Schema) (m : Message) (index : Nat) (kind : Kind) (c : Content)
    (ps : Pools) : Message × Pools :=
  (m.setPlain index c, Content.recycle schema kind ((m.plain[index]?).getD .absent) ps)

/-- Replaces what a oneof holds and returns the message that it held. -/
def Message.choose (schema : Schema) (type : MessageType) (m : Message) (oneof index : Nat)
    (d : Datum) (ps : Pools) : Message × Pools :=
  (m.setChoice oneof (.member index d),
    Choice.recycle schema type oneof ((m.choices[oneof]?).getD .unset) ps)

/-- Returns the messages of a map value whose key was read again. -/
def recycleReplaced (schema : Schema) (kind : Kind) (old : Option Datum) (ps : Pools) : Pools :=
  match old with
  | some d => Datum.recycle schema kind d ps
  | none => ps

/-- What a decoder works with: the pools and the reader. -/
structure Session where
  pools : Pools
  reader : Reader

namespace Session

/-- The session with the reader moved on. -/
def moveTo (st : Session) (s : Reader) : Session := { st with reader := s }

/-- What remains to be read. -/
def remaining (st : Session) : Nat := st.reader.remaining

@[simp] theorem remaining_moveTo (st : Session) (s : Reader) :
    (st.moveTo s).remaining = s.remaining := rfl

/-- The outcome of a read of the reader, as a value of the session. -/
def take {α : Type} (st : Session) (r : Except SyntaxError α × Reader) (f : α → Datum) :
    Except ReadError Datum × Session :=
  ((r.1.map f).mapError .malformed, st.moveTo r.2)

/-- A successful read takes something. -/
def Takes {α : Type} (st : Session) (r : Except ReadError α × Session) : Prop :=
  ∀ a, r.1 = .ok a → r.2.remaining < st.remaining

theorem take_takes {α : Type} {st : Session} {r : Except SyntaxError α × Reader} {f : α → Datum}
    (h : Reader.Progress st.reader r) : st.Takes (st.take r f) := by
  obtain ⟨r₁, r₂⟩ := r
  intro a ha
  cases r₁ with
  | error e => cases ha
  | ok v => exact h.2 v rfl

theorem takes_malformed {α : Type} {st : Session} {r : Except SyntaxError α × Reader}
    (h : Reader.Progress st.reader r) :
    st.Takes (r.1.mapError ReadError.malformed, st.moveTo r.2) := by
  obtain ⟨r₁, r₂⟩ := r
  intro a ha
  cases r₁ with
  | error e => cases ha
  | ok v => exact h.2 v rfl

end Session

mutual

/-- The worker of `Schema.readDatum`. -/
def Schema.datumStep (schema : Schema) (kind : Kind) (st : Session) :
    { r : Except ReadError Datum × Session // st.Takes r } :=
  match kind with
  | .bool => ⟨st.take st.reader.bool .bool, Session.take_takes (Reader.bool_progress _)⟩
  | .integer k =>
    ⟨st.take (st.reader.integer k) .integer, Session.take_takes (Reader.integer_progress _ _)⟩
  | .float32 =>
    ⟨st.take (st.reader.binary .single) .float32, Session.take_takes (Reader.binary_progress _ _)⟩
  | .float64 =>
    ⟨st.take (st.reader.binary .double) .float64, Session.take_takes (Reader.binary_progress _ _)⟩
  | .string => ⟨st.take st.reader.string .string, Session.take_takes (Reader.string_progress _)⟩
  | .bytes => ⟨st.take st.reader.bytes .bytes, Session.take_takes (Reader.bytes_progress _)⟩
  | .enumeration i =>
    let r := st.reader.enumeration (schema.enumType i)
    ⟨(r.1.map fun v => .enumeration v.number, st.moveTo r.2), by
      intro a ha
      have hp := Reader.enumeration_progress st.reader (schema.enumType i)
      cases hr : r.1 with
      | error e => simp [hr, Except.map] at ha
      | ok v => exact hp.2 v hr⟩
  | .message i =>
    let (m, ps) := st.pools.acquire schema i
    match Schema.messageStep schema i m { pools := ps, reader := st.reader } with
    | ⟨(.error e, _, st₁), _⟩ => ⟨(.error e, st₁), fun _ h => by cases h⟩
    | ⟨(.ok _, m, st₁), h₁⟩ => ⟨(.ok (.message m), st₁), fun _ _ => h₁ () rfl⟩
termination_by 4 * st.remaining + 1
decreasing_by exact Nat.lt_succ_self _

/-- The worker of `Schema.readMessage`. -/
def Schema.messageStep (schema : Schema) (index : Nat) (m : Message) (st : Session) :
    { r : Except ReadError Unit × Message × Session //
      ∀ a, r.1 = .ok a → r.2.2.remaining < st.remaining } :=
  match h : st.reader.symbol (ascii '{') with
  | (.error e, s) => ⟨(.error (.malformed e), m, st.moveTo s), fun _ h => by cases h⟩
  | (.ok _, s) =>
    have hs : s.remaining < st.remaining := by
      have := (Reader.symbol_progress st.reader (ascii '{')).2 ()
      rw [h] at this
      exact this rfl
    match Schema.fieldsStep schema index m (st.moveTo s) with
    | ⟨r, hr⟩ => ⟨r, fun a ha => Nat.lt_trans (hr a ha) hs⟩
termination_by 4 * st.remaining
decreasing_by simp only [Session.remaining_moveTo]; omega

/-- The worker of `Schema.readFields`. -/
def Schema.fieldsStep (schema : Schema) (index : Nat) (m : Message) (st : Session) :
    { r : Except ReadError Unit × Message × Session //
      ∀ a, r.1 = .ok a → r.2.2.remaining < st.remaining } :=
  if st.reader.atSymbol (ascii '}') then
    let r := st.reader.close (ascii '}') ()
    ⟨(r.1.mapError .malformed, m, st.moveTo r.2),
      Session.takes_malformed (Reader.close_progress st.reader (ascii '}') ())⟩
  else
    match h : st.reader.string with
    | (.error e, s) => ⟨(.error (.malformed e), m, st.moveTo s), fun _ h => by cases h⟩
    | (.ok key, s) =>
      have hs : s.remaining < st.remaining := by
        have := (Reader.string_progress st.reader).2 key
        rw [h] at this
        exact this rfl
      match (schema.messageType index).slot? key with
      | none =>
        have hv : s.colon.skipValue.remaining ≤ s.remaining := (Reader.valueStep s.colon).2.1
        match Schema.fieldsStep schema index m (st.moveTo s.colon.skipValue.comma) with
        | ⟨r, hr⟩ => ⟨r, fun a ha => by
            have := hr a ha
            simp only [Session.remaining_moveTo, Reader.remaining_comma] at this
            omega⟩
      | some slot =>
        match Schema.slotStep schema index slot m (st.moveTo s.colon) with
        | ⟨(.error e, m, st₁), _⟩ => ⟨(.error e, m, st₁), fun _ h => by cases h⟩
        | ⟨(.ok _, m, st₁), h₁⟩ =>
          have h₁' : st₁.remaining < s.remaining := h₁ () rfl
          match Schema.fieldsStep schema index m (st₁.moveTo st₁.reader.comma) with
          | ⟨r, hr⟩ => ⟨r, fun a ha => by
              have : r.2.2.remaining < st₁.remaining := hr a ha
              omega⟩
termination_by 4 * st.remaining
decreasing_by
  · simp only [Session.remaining_moveTo, Reader.remaining_comma]
    omega
  · simp only [Session.remaining_moveTo, Reader.remaining_colon]
    omega
  · have : (st₁.moveTo st₁.reader.comma).remaining = st₁.remaining := rfl
    omega

/-- The worker of `Schema.readSlot`. -/
def Schema.slotStep (schema : Schema) (index : Nat) (slot : Slot) (m : Message) (st : Session) :
    { r : Except ReadError Unit × Message × Session //
      ∀ a, r.1 = .ok a → r.2.2.remaining < st.remaining } :=
  match slot with
  | .member j k f =>
    match Schema.datumStep schema f.kind st with
    | ⟨(.error e, st₁), _⟩ => ⟨(.error e, m, st₁), fun _ h => by cases h⟩
    | ⟨(.ok d, st₁), h₁⟩ =>
      let (m, ps) := m.choose schema (schema.messageType index) j k d st₁.pools
      ⟨(.ok (), m, { st₁ with pools := ps }), fun _ _ => h₁ d rfl⟩
  | .plain i f =>
    match f.cardinality with
    | .singular =>
      match Schema.datumStep schema f.kind st with
      | ⟨(.error e, st₁), _⟩ => ⟨(.error e, m, st₁), fun _ h => by cases h⟩
      | ⟨(.ok d, st₁), h₁⟩ =>
        let (m, ps) := m.assign schema i f.kind (.single d) st₁.pools
        ⟨(.ok (), m, { st₁ with pools := ps }), fun _ _ => h₁ d rfl⟩
    | .list =>
      match h : st.reader.symbol (ascii '[') with
      | (.error e, s) => ⟨(.error (.malformed e), m, st.moveTo s), fun _ h => by cases h⟩
      | (.ok _, s) =>
        have hs : s.remaining < st.remaining := by
          have := (Reader.symbol_progress st.reader (ascii '[')).2 ()
          rw [h] at this
          exact this rfl
        match Schema.elementsStep schema f.kind [] (st.moveTo s) with
        | ⟨(.error e, st₁), _⟩ => ⟨(.error e, m, st₁), fun _ h => by cases h⟩
        | ⟨(.ok ds, st₁), h₁⟩ =>
          let (m, ps) := m.assign schema i f.kind (.list ds) st₁.pools
          ⟨(.ok (), m, { st₁ with pools := ps }), fun _ _ => Nat.lt_trans (h₁ ds rfl) hs⟩
    | .map keyKind =>
      match h : st.reader.symbol (ascii '{') with
      | (.error e, s) => ⟨(.error (.malformed e), m, st.moveTo s), fun _ h => by cases h⟩
      | (.ok _, s) =>
        have hs : s.remaining < st.remaining := by
          have := (Reader.symbol_progress st.reader (ascii '{')).2 ()
          rw [h] at this
          exact this rfl
        match Schema.entriesStep schema keyKind f.kind [] (st.moveTo s) with
        | ⟨(.error e, st₁), _⟩ => ⟨(.error e, m, st₁), fun _ h => by cases h⟩
        | ⟨(.ok es, st₁), h₁⟩ =>
          let (m, ps) := m.assign schema i f.kind (.map es) st₁.pools
          ⟨(.ok (), m, { st₁ with pools := ps }), fun _ _ => Nat.lt_trans (h₁ es rfl) hs⟩
termination_by 4 * st.remaining + 2
decreasing_by
  all_goals try simp only [Session.remaining_moveTo]
  all_goals omega

/-- The worker of `Schema.readElements`. -/
def Schema.elementsStep (schema : Schema) (kind : Kind) (before : List Datum) (st : Session) :
    { r : Except ReadError (List Datum) × Session // st.Takes r } :=
  if st.reader.atSymbol (ascii ']') then
    let r := st.reader.close (ascii ']') before.reverse
    ⟨(r.1.mapError .malformed, st.moveTo r.2),
      Session.takes_malformed (Reader.close_progress st.reader (ascii ']') before.reverse)⟩
  else
    match Schema.datumStep schema kind st with
    | ⟨(.error e, st₁), _⟩ => ⟨(.error e, st₁), fun _ h => by cases h⟩
    | ⟨(.ok d, st₁), h₁⟩ =>
      have h₁' : st₁.remaining < st.remaining := h₁ d rfl
      match Schema.elementsStep schema kind (d :: before) (st₁.moveTo st₁.reader.comma) with
      | ⟨r, hr⟩ => ⟨r, fun a ha => Nat.lt_trans (hr a ha) h₁'⟩
termination_by 4 * st.remaining + 2
decreasing_by
  · omega
  · have : (st₁.moveTo st₁.reader.comma).remaining = st₁.remaining := rfl
    omega

/-- The worker of `Schema.readEntries`. -/
def Schema.entriesStep (schema : Schema) (keyKind : KeyKind) (kind : Kind)
    (before : List (MapKey × Datum)) (st : Session) :
    { r : Except ReadError (List (MapKey × Datum)) × Session // st.Takes r } :=
  if st.reader.atSymbol (ascii '}') then
    let r := st.reader.close (ascii '}') before
    ⟨(r.1.mapError .malformed, st.moveTo r.2),
      Session.takes_malformed (Reader.close_progress st.reader (ascii '}') before)⟩
  else
    match h : st.reader.mapKey keyKind with
    | (.error e, s) => ⟨(.error (.malformed e), st.moveTo s), fun _ h => by cases h⟩
    | (.ok key, s) =>
      have hs : s.remaining < st.remaining := by
        have := (Reader.mapKey_progress st.reader keyKind).2 key
        rw [h] at this
        exact this rfl
      match Schema.datumStep schema kind (st.moveTo s.colon) with
      | ⟨(.error e, st₁), _⟩ => ⟨(.error e, st₁), fun _ h => by cases h⟩
      | ⟨(.ok d, st₁), h₁⟩ =>
        have h₁' : st₁.remaining < s.remaining := h₁ d rfl
        let (entries, replaced) := insertEntry key d before
        match Schema.entriesStep schema keyKind kind entries
            { pools := recycleReplaced schema kind replaced st₁.pools
              reader := st₁.reader.comma } with
        | ⟨r, hr⟩ => ⟨r, fun a ha => by
            have : r.2.remaining < st₁.remaining := hr a ha
            omega⟩
termination_by 4 * st.remaining + 2
decreasing_by
  · simp only [Session.remaining_moveTo, Reader.remaining_colon]
    omega
  · change 4 * st₁.remaining + 2 < 4 * st.remaining + 2
    omega

end

namespace Schema

/-- Reads a value of a kind. -/
def readDatum (schema : Schema) (kind : Kind) (st : Session) : Except ReadError Datum × Session :=
  (schema.datumStep kind st).val

/-- Reads an object into a message. -/
def readMessage (schema : Schema) (index : Nat) (m : Message) (st : Session) :
    Except ReadError Unit × Message × Session := (schema.messageStep index m st).val

/-- Reads the members of an object into a message, up to the closing bracket. -/
def readFields (schema : Schema) (index : Nat) (m : Message) (st : Session) :
    Except ReadError Unit × Message × Session := (schema.fieldsStep index m st).val

/-- Reads the value of a key into its slot. -/
def readSlot (schema : Schema) (index : Nat) (slot : Slot) (m : Message) (st : Session) :
    Except ReadError Unit × Message × Session := (schema.slotStep index slot m st).val

/-- Reads the elements of a list up to the closing bracket. Those before are in reverse. -/
def readElements (schema : Schema) (kind : Kind) (before : List Datum) (st : Session) :
    Except ReadError (List Datum) × Session := (schema.elementsStep kind before st).val

/-- Reads the entries of a map up to the closing bracket, and adds them to those before. -/
def readEntries (schema : Schema) (keyKind : KeyKind) (kind : Kind)
    (before : List (MapKey × Datum)) (st : Session) :
    Except ReadError (List (MapKey × Datum)) × Session :=
  (schema.entriesStep keyKind kind before st).val

/-! ## What the workers compute, without their evidence -/

variable (schema : Schema)

theorem readDatum_bool (st : Session) :
    schema.readDatum .bool st = st.take st.reader.bool .bool := by
  rw [readDatum, datumStep]

theorem readDatum_integer (k : IntegerKind) (st : Session) :
    schema.readDatum (.integer k) st = st.take (st.reader.integer k) .integer := by
  rw [readDatum, datumStep]

theorem readDatum_float32 (st : Session) :
    schema.readDatum .float32 st = st.take (st.reader.binary .single) .float32 := by
  rw [readDatum, datumStep]

theorem readDatum_float64 (st : Session) :
    schema.readDatum .float64 st = st.take (st.reader.binary .double) .float64 := by
  rw [readDatum, datumStep]

theorem readDatum_string (st : Session) :
    schema.readDatum .string st = st.take st.reader.string .string := by
  rw [readDatum, datumStep]

theorem readDatum_bytes (st : Session) :
    schema.readDatum .bytes st = st.take st.reader.bytes .bytes := by
  rw [readDatum, datumStep]

theorem readDatum_enumeration (i : Nat) (st : Session) :
    schema.readDatum (.enumeration i) st =
      let r := st.reader.enumeration (schema.enumType i)
      (r.1.map fun v => .enumeration v.number, st.moveTo r.2) := by
  rw [readDatum, datumStep]

/-- A message is read into one that is taken from the pools. -/
theorem readDatum_message (i : Nat) (st : Session) :
    schema.readDatum (.message i) st =
      let (m, ps) := st.pools.acquire schema i
      match schema.readMessage i m { pools := ps, reader := st.reader } with
      | (.error e, _, st₁) => (.error e, st₁)
      | (.ok _, m, st₁) => (.ok (.message m), st₁) := by
  rw [readDatum, datumStep]
  simp only [readMessage]
  split <;> next h => simp only [h]

theorem readMessage_eq (index : Nat) (m : Message) (st : Session) :
    schema.readMessage index m st =
      match st.reader.symbol (ascii '{') with
      | (.error e, s) => (.error (.malformed e), m, st.moveTo s)
      | (.ok _, s) => schema.readFields index m (st.moveTo s) := by
  rw [readMessage, messageStep]
  split <;> next h => simp only [h, readFields]

/-- A member with a known key goes to its slot. The value of any other is passed. -/
theorem readFields_eq (index : Nat) (m : Message) (st : Session) :
    schema.readFields index m st =
      if st.reader.atSymbol (ascii '}') then
        let r := st.reader.close (ascii '}') ()
        (r.1.mapError .malformed, m, st.moveTo r.2)
      else
        match st.reader.string with
        | (.error e, s) => (.error (.malformed e), m, st.moveTo s)
        | (.ok key, s) =>
          match (schema.messageType index).slot? key with
          | none => schema.readFields index m (st.moveTo s.colon.skipValue.comma)
          | some slot =>
            match schema.readSlot index slot m (st.moveTo s.colon) with
            | (.error e, m, st₁) => (.error e, m, st₁)
            | (.ok _, m, st₁) =>
              schema.readFields index m (st₁.moveTo st₁.reader.comma) := by
  unfold readFields readSlot
  rw [fieldsStep]
  split
  · rfl
  · split
    · next h => simp only [h]
    · next h =>
      simp only [h]
      split
      · rfl
      · split <;> next h' => simp only [h']

theorem readSlot_member (index j k : Nat) (f : Field) (m : Message) (st : Session) :
    schema.readSlot index (.member j k f) m st =
      match schema.readDatum f.kind st with
      | (.error e, st₁) => (.error e, m, st₁)
      | (.ok d, st₁) =>
        let (m, ps) := m.choose schema (schema.messageType index) j k d st₁.pools
        (.ok (), m, { st₁ with pools := ps }) := by
  rw [readSlot, slotStep]
  simp only [readDatum]
  split <;> next h => simp only [h]

theorem readSlot_singular (index i : Nat) (f : Field) (hf : f.cardinality = .singular)
    (m : Message) (st : Session) :
    schema.readSlot index (.plain i f) m st =
      match schema.readDatum f.kind st with
      | (.error e, st₁) => (.error e, m, st₁)
      | (.ok d, st₁) =>
        let (m, ps) := m.assign schema i f.kind (.single d) st₁.pools
        (.ok (), m, { st₁ with pools := ps }) := by
  rw [readSlot, slotStep]
  simp only [readDatum, hf]
  split <;> next h => simp only [h]

theorem readSlot_list (index i : Nat) (f : Field) (hf : f.cardinality = .list)
    (m : Message) (st : Session) :
    schema.readSlot index (.plain i f) m st =
      match st.reader.symbol (ascii '[') with
      | (.error e, s) => (.error (.malformed e), m, st.moveTo s)
      | (.ok _, s) =>
        match schema.readElements f.kind [] (st.moveTo s) with
        | (.error e, st₁) => (.error e, m, st₁)
        | (.ok ds, st₁) =>
          let (m, ps) := m.assign schema i f.kind (.list ds) st₁.pools
          (.ok (), m, { st₁ with pools := ps }) := by
  rw [readSlot, slotStep]
  simp only [hf]
  split
  · next h => simp only [h]
  · next h =>
    simp only [h, readElements]
    split <;> next h' => simp only [h']

theorem readSlot_map (index i : Nat) (f : Field) (keyKind : KeyKind)
    (hf : f.cardinality = .map keyKind) (m : Message) (st : Session) :
    schema.readSlot index (.plain i f) m st =
      match st.reader.symbol (ascii '{') with
      | (.error e, s) => (.error (.malformed e), m, st.moveTo s)
      | (.ok _, s) =>
        match schema.readEntries keyKind f.kind [] (st.moveTo s) with
        | (.error e, st₁) => (.error e, m, st₁)
        | (.ok es, st₁) =>
          let (m, ps) := m.assign schema i f.kind (.map es) st₁.pools
          (.ok (), m, { st₁ with pools := ps }) := by
  rw [readSlot, slotStep]
  simp only [hf]
  split
  · next h => simp only [h]
  · next h =>
    simp only [h, readEntries]
    split <;> next h' => simp only [h']

theorem readElements_eq (kind : Kind) (before : List Datum) (st : Session) :
    schema.readElements kind before st =
      if st.reader.atSymbol (ascii ']') then
        let r := st.reader.close (ascii ']') before.reverse
        (r.1.mapError .malformed, st.moveTo r.2)
      else
        match schema.readDatum kind st with
        | (.error e, st₁) => (.error e, st₁)
        | (.ok d, st₁) =>
          schema.readElements kind (d :: before) (st₁.moveTo st₁.reader.comma) := by
  unfold readElements readDatum
  rw [elementsStep]
  split
  · rfl
  · split <;> next h => simp only [h]

/-- The last value of a key stands, and those before go back to the pools. -/
theorem readEntries_eq (keyKind : KeyKind) (kind : Kind) (before : List (MapKey × Datum))
    (st : Session) :
    schema.readEntries keyKind kind before st =
      if st.reader.atSymbol (ascii '}') then
        let r := st.reader.close (ascii '}') before
        (r.1.mapError .malformed, st.moveTo r.2)
      else
        match st.reader.mapKey keyKind with
        | (.error e, s) => (.error (.malformed e), st.moveTo s)
        | (.ok key, s) =>
          match schema.readDatum kind (st.moveTo s.colon) with
          | (.error e, st₁) => (.error e, st₁)
          | (.ok d, st₁) =>
            let (entries, replaced) := insertEntry key d before
            schema.readEntries keyKind kind entries
              { pools := recycleReplaced schema kind replaced st₁.pools
                reader := st₁.reader.comma } := by
  unfold readEntries readDatum
  rw [entriesStep]
  split
  · rfl
  · split
    · next h => simp only [h]
    · next h =>
      simp only [h]
      split <;> next h' => simp only [h']

end Schema

end ProtoJson
