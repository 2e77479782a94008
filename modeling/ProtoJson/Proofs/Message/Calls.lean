import ProtoJson.Message.Decode

/-!
# The reads of a run

Decoding a message is one read that makes others on its way: of members, of values, of elements and
of entries. `Call` names them with what they start from, and `Call.Makes` says which of them a read
makes. Those have less of the input in front of them, so what a read has if the reads that it makes
have it holds of every run.
-/

namespace ProtoJson

variable {schema : Schema}

namespace Session

@[simp] theorem reader_moveTo (st : Session) (s : Reader) : (st.moveTo s).reader = s := rfl

@[simp] theorem pools_moveTo (st : Session) (s : Reader) : (st.moveTo s).pools = st.pools := rfl

end Session

theorem Reader.Progress.lt {s s' : Reader} {ε α : Type} {r : Except ε α × Reader} {a : α}
    (h : Progress s r) (hr : r = (.ok a, s')) : s'.remaining < s.remaining := by
  have hlt := h.2 a (by rw [hr])
  rwa [hr] at hlt

namespace Schema

variable {st st' : Session}

/-! ## Fields -/

/-- Reads a list with its brackets. -/
def readList (schema : Schema) (kind : Kind) (st : Session) :
    Except ReadError (List Datum) × Session :=
  match st.reader.symbol (ascii '[') with
  | (.error e, s) => (.error (.malformed e), st.moveTo s)
  | (.ok _, s) => schema.readElements kind [] (st.moveTo s)

/-- Reads a map with its brackets. -/
def readMap (schema : Schema) (keyKind : KeyKind) (kind : Kind) (st : Session) :
    Except ReadError (List (MapKey × Datum)) × Session :=
  match st.reader.symbol (ascii '{') with
  | (.error e, s) => (.error (.malformed e), st.moveTo s)
  | (.ok _, s) => schema.readEntries keyKind kind [] (st.moveTo s)

/-- Puts what a read gives into a message. -/
def store {α : Type} (m : Message) (put : α → Pools → Message × Pools)
    (res : Except ReadError α × Session) : Except ReadError Unit × Message × Session :=
  match res with
  | (.error e, st) => (.error e, m, st)
  | (.ok a, st) => (.ok (), (put a st.pools).1, { st with pools := (put a st.pools).2 })

theorem readSlot_member_eq (index j k : Nat) (f : Field) (m : Message) :
    schema.readSlot index (.member j k f) m st
      = store m (m.choose schema (schema.messageType index) j k) (schema.readDatum f.kind st) := by
  rw [readSlot_member]
  rcases schema.readDatum f.kind st with ⟨e | d, st₁⟩ <;> rfl

theorem readSlot_singular_eq (index i : Nat) (f : Field) (hf : f.cardinality = .singular)
    (m : Message) :
    schema.readSlot index (.plain i f) m st
      = store m (fun d => m.assign schema i f.kind (.single d)) (schema.readDatum f.kind st) := by
  rw [readSlot_singular schema index i f hf]
  rcases schema.readDatum f.kind st with ⟨e | d, st₁⟩ <;> rfl

theorem readSlot_list_eq (index i : Nat) (f : Field) (hf : f.cardinality = .list) (m : Message) :
    schema.readSlot index (.plain i f) m st
      = store m (fun ds => m.assign schema i f.kind (.list ds)) (schema.readList f.kind st) := by
  rw [readSlot_list schema index i f hf, readList]
  rcases st.reader.symbol (ascii '[') with ⟨e | u, s⟩
  · rfl
  · dsimp only
    rcases schema.readElements f.kind [] (st.moveTo s) with ⟨e | ds, st₁⟩ <;> rfl

theorem readSlot_map_eq (index i : Nat) (f : Field) (keyKind : KeyKind)
    (hf : f.cardinality = .map keyKind) (m : Message) :
    schema.readSlot index (.plain i f) m st
      = store m (fun es => m.assign schema i f.kind (.map es))
        (schema.readMap keyKind f.kind st) := by
  rw [readSlot_map schema index i f keyKind hf, readMap]
  rcases st.reader.symbol (ascii '{') with ⟨e | u, s⟩
  · rfl
  · dsimp only
    rcases schema.readEntries keyKind f.kind [] (st.moveTo s) with ⟨e | es, st₁⟩ <;> rfl

/-! ## Reads that succeed -/

/-- A value takes some of the input. -/
theorem readDatum_lt {kind : Kind} {d : Datum} (h : schema.readDatum kind st = (.ok d, st')) :
    st'.remaining < st.remaining := by
  have hlt := (schema.datumStep kind st).property d
  rw [show (schema.datumStep kind st).val = _ from h] at hlt
  exact hlt rfl

theorem readSlot_lt {index : Nat} {slot : Slot} {m m' : Message}
    (h : schema.readSlot index slot m st = (.ok (), m', st')) : st'.remaining < st.remaining := by
  have hlt := (schema.slotStep index slot m st).property ()
  rw [show (schema.slotStep index slot m st).val = _ from h] at hlt
  exact hlt rfl

theorem of_take {α : Type} {r : Except SyntaxError α × Reader} {f : α → Datum} {d : Datum}
    (h : st.take r f = (.ok d, st')) : ∃ a, r = (.ok a, st'.reader) := by
  obtain ⟨r₁, s⟩ := r
  cases r₁ with
  | error e => cases h
  | ok a =>
    cases h
    exact ⟨a, rfl⟩

theorem of_store {α : Type} {m m' : Message} {put : α → Pools → Message × Pools}
    {res : Except ReadError α × Session} (h : store m put res = (.ok (), m', st')) :
    ∃ a st₁, res = (.ok a, st₁) ∧ st₁.reader = st'.reader := by
  obtain ⟨r₁, st₁⟩ := res
  cases r₁ with
  | error e => cases h
  | ok a =>
    cases h
    exact ⟨a, st₁, rfl, rfl⟩

theorem of_readList {kind : Kind} {ds : List Datum}
    (h : schema.readList kind st = (.ok ds, st')) :
    ∃ s, st.reader.symbol (ascii '[') = (.ok (), s) ∧
      schema.readElements kind [] (st.moveTo s) = (.ok ds, st') := by
  rw [readList] at h
  split at h
  · cases h
  · next s hs => exact ⟨s, hs, h⟩

theorem of_readMap {keyKind : KeyKind} {kind : Kind} {es : List (MapKey × Datum)}
    (h : schema.readMap keyKind kind st = (.ok es, st')) :
    ∃ s, st.reader.symbol (ascii '{') = (.ok (), s) ∧
      schema.readEntries keyKind kind [] (st.moveTo s) = (.ok es, st') := by
  rw [readMap] at h
  split at h
  · cases h
  · next s hs => exact ⟨s, hs, h⟩

theorem of_readMessage {index : Nat} {m m' : Message}
    (h : schema.readMessage index m st = (.ok (), m', st')) :
    ∃ s, st.reader.symbol (ascii '{') = (.ok (), s) ∧
      schema.readFields index m (st.moveTo s) = (.ok (), m', st') := by
  rw [readMessage_eq] at h
  split at h
  · cases h
  · next s hs => exact ⟨s, hs, h⟩

end Schema

/-! ## Calls -/

/-- A read that decoding consists of. -/
inductive Call where
  | datum (kind : Kind) (st : Session)
  | message (index : Nat) (m : Message) (st : Session)
  | fields (index : Nat) (m : Message) (st : Session)
  | slot (index : Nat) (slot : Slot) (m : Message) (st : Session)
  | elements (kind : Kind) (before : List Datum) (st : Session)
  | entries (keyKind : KeyKind) (kind : Kind) (before : List (MapKey × Datum)) (st : Session)

/-- A read makes another one on its way. -/
inductive Call.Makes (schema : Schema) : Call → Call → Prop where
  | message {i : Nat} {st : Session} :
    Makes schema (.datum (.message i) st)
      (.message i (st.pools.acquire schema i).1 ⟨(st.pools.acquire schema i).2, st.reader⟩)
  | fields {index : Nat} {m : Message} {st : Session} {s : Reader}
    (h : st.reader.symbol (ascii '{') = (.ok (), s)) :
    Makes schema (.message index m st) (.fields index m (st.moveTo s))
  | passed {index : Nat} {m : Message} {st : Session} {key : String} {s : Reader}
    (hat : st.reader.atSymbol (ascii '}') = false) (hkey : st.reader.string = (.ok key, s))
    (hslot : (schema.messageType index).slot? key = none) :
    Makes schema (.fields index m st) (.fields index m (st.moveTo s.colon.skipValue.comma))
  | slot {index : Nat} {m : Message} {st : Session} {key : String} {s : Reader} {slot : Slot}
    (hat : st.reader.atSymbol (ascii '}') = false) (hkey : st.reader.string = (.ok key, s))
    (hslot : (schema.messageType index).slot? key = some slot) :
    Makes schema (.fields index m st) (.slot index slot m (st.moveTo s.colon))
  | next {index : Nat} {m m' : Message} {st st₁ : Session} {key : String} {s : Reader} {slot : Slot}
    (hat : st.reader.atSymbol (ascii '}') = false) (hkey : st.reader.string = (.ok key, s))
    (hslot : (schema.messageType index).slot? key = some slot)
    (hread : schema.readSlot index slot m (st.moveTo s.colon) = (.ok (), m', st₁)) :
    Makes schema (.fields index m st) (.fields index m' (st₁.moveTo st₁.reader.comma))
  | member {index j k : Nat} {f : Field} {m : Message} {st : Session} :
    Makes schema (.slot index (.member j k f) m st) (.datum f.kind st)
  | singular {index i : Nat} {f : Field} {m : Message} {st : Session}
    (hf : f.cardinality = .singular) :
    Makes schema (.slot index (.plain i f) m st) (.datum f.kind st)
  | list {index i : Nat} {f : Field} {m : Message} {st : Session} {s : Reader}
    (hf : f.cardinality = .list) (h : st.reader.symbol (ascii '[') = (.ok (), s)) :
    Makes schema (.slot index (.plain i f) m st) (.elements f.kind [] (st.moveTo s))
  | map {index i : Nat} {f : Field} {keyKind : KeyKind} {m : Message} {st : Session} {s : Reader}
    (hf : f.cardinality = .map keyKind) (h : st.reader.symbol (ascii '{') = (.ok (), s)) :
    Makes schema (.slot index (.plain i f) m st) (.entries keyKind f.kind [] (st.moveTo s))
  | element {kind : Kind} {before : List Datum} {st : Session}
    (hat : st.reader.atSymbol (ascii ']') = false) :
    Makes schema (.elements kind before st) (.datum kind st)
  | elements {kind : Kind} {before : List Datum} {st st₁ : Session} {d : Datum}
    (hat : st.reader.atSymbol (ascii ']') = false)
    (hread : schema.readDatum kind st = (.ok d, st₁)) :
    Makes schema (.elements kind before st)
      (.elements kind (d :: before) (st₁.moveTo st₁.reader.comma))
  | entry {keyKind : KeyKind} {kind : Kind} {before : List (MapKey × Datum)} {st : Session}
    {key : MapKey} {s : Reader} (hat : st.reader.atSymbol (ascii '}') = false)
    (hkey : st.reader.mapKey keyKind = (.ok key, s)) :
    Makes schema (.entries keyKind kind before st) (.datum kind (st.moveTo s.colon))
  | entries {keyKind : KeyKind} {kind : Kind} {before : List (MapKey × Datum)} {st st₁ : Session}
    {key : MapKey} {d : Datum} {s : Reader} (hat : st.reader.atSymbol (ascii '}') = false)
    (hkey : st.reader.mapKey keyKind = (.ok key, s))
    (hread : schema.readDatum kind (st.moveTo s.colon) = (.ok d, st₁)) :
    Makes schema (.entries keyKind kind before st)
      (.entries keyKind kind (insertEntry key d before).1
        ⟨recycleReplaced schema kind (insertEntry key d before).2 st₁.pools, st₁.reader.comma⟩)

namespace Call

/-- What a read may still take. The reads that it makes on its way have less of it. -/
def room : Call → Nat
  -- Reads at one place make each other in this order: a slot or a loop, a value, a message.
  | datum _ st => 4 * st.remaining + 1
  | message _ _ st => 4 * st.remaining
  | fields _ _ st => 4 * st.remaining
  | slot _ _ _ st => 4 * st.remaining + 2
  | elements _ _ st => 4 * st.remaining + 2
  | entries _ _ _ st => 4 * st.remaining + 2

theorem room_lt {c c' : Call} (h : Makes schema c c') : c'.room < c.room := by
  -- Where a key, a bracket or a value is taken first, less of the input remains; where nothing is,
  -- the next read comes later in the order.
  cases h with
  | message => exact Nat.lt_succ_self _
  | @fields index m st s h =>
    have hlt : s.remaining < st.remaining := (Reader.symbol_progress st.reader _).lt h
    simp only [room, Session.remaining_moveTo]
    omega
  | @passed index m st key s hat hkey hslot =>
    have hlt : s.remaining < st.remaining := (Reader.string_progress st.reader).lt hkey
    have hle : s.colon.skipValue.remaining ≤ s.remaining := (Reader.valueStep s.colon).property.1
    simp only [room, Session.remaining_moveTo, Reader.remaining_comma]
    omega
  | @slot index m st key s slot hat hkey hslot =>
    have hlt : s.remaining < st.remaining := (Reader.string_progress st.reader).lt hkey
    simp only [room, Session.remaining_moveTo, Reader.remaining_colon]
    omega
  | @next index m m' st st₁ key s slot hat hkey hslot hread =>
    have hlt : s.remaining < st.remaining := (Reader.string_progress st.reader).lt hkey
    have hlt₁ : st₁.remaining < s.remaining := Schema.readSlot_lt hread
    have hcomma : (st₁.moveTo st₁.reader.comma).remaining = st₁.remaining := rfl
    simp only [room, hcomma]
    omega
  | member => exact Nat.lt_succ_self _
  | singular hf => exact Nat.lt_succ_self _
  | @list index i f m st s hf h =>
    have hlt : s.remaining < st.remaining := (Reader.symbol_progress st.reader _).lt h
    simp only [room, Session.remaining_moveTo]
    omega
  | @map index i f keyKind m st s hf h =>
    have hlt : s.remaining < st.remaining := (Reader.symbol_progress st.reader _).lt h
    simp only [room, Session.remaining_moveTo]
    omega
  | element hat => exact Nat.lt_succ_self _
  | @elements kind before st st₁ d hat hread =>
    have hlt : st₁.remaining < st.remaining := Schema.readDatum_lt hread
    have hcomma : (st₁.moveTo st₁.reader.comma).remaining = st₁.remaining := rfl
    simp only [room, hcomma]
    omega
  | @entry keyKind kind before st key s hat hkey =>
    have hlt : s.remaining < st.remaining := (Reader.mapKey_progress st.reader keyKind).lt hkey
    simp only [room, Session.remaining_moveTo, Reader.remaining_colon]
    omega
  | @entries keyKind kind before st st₁ key d s hat hkey hread =>
    have hlt : s.remaining < st.remaining := (Reader.mapKey_progress st.reader keyKind).lt hkey
    have hlt₁ : st₁.remaining < s.remaining := Schema.readDatum_lt hread
    show 4 * st₁.remaining + 2 < 4 * st.remaining + 2
    omega

/-- What passes from the reads that a read makes to that read holds of all reads. -/
theorem induction (schema : Schema) {p : Call → Prop}
    (h : ∀ c, (∀ c', Makes schema c c' → p c') → p c) (c : Call) : p c :=
  (measure room).wf.induction c fun c ih => h c fun c' hc' => ih c' (room_lt hc')

end Call

end ProtoJson
