import ProtoJson.Proofs.Message.Bounds
import ProtoJson.Proofs.Message.Rounds
import ProtoJson.Proofs.Message.Tolerance
import ProtoJson.Proofs.Reader.Locality

/-!
# What follows a message is not looked at

A message that is decoded ends with a closing brace. Whatever stands behind that brace, decoding
succeeds with the same message and the same pools, and the cursor stops at the same place. This is
so although numbers are taken greedily, and although values of unknown members that cannot be read
are passed by a scan ahead.
-/

namespace ProtoJson

open Grammar Reader

/-- The session at the same place of another input. -/
def Session.on (input : List UInt8) (st : Session) : Session :=
  { st with reader := st.reader.on input }

variable {schema : Schema} {input input' : List UInt8} {stop : Nat} {st st' st₁ : Session}
  {s s₁ : Reader}

/-- If the read of the one input succeeds and the cursor has not passed `stop`, the read of the
other gives the same. -/
def SameRead (stop : Nat) (input' : List UInt8) {α : Type}
    (r r' : Except ReadError α × Session) : Prop :=
  ∀ a st', r = (.ok a, st') → st'.reader.offset ≤ stop → r' = (.ok a, st'.on input')

/-- If the one input is read into a message and the cursor has not passed `stop`, reading the other
makes the same message. -/
def SameMessage (stop : Nat) (input' : List UInt8)
    (r r' : Except ReadError Unit × Message × Session) : Prop :=
  ∀ m' st', r = (.ok (), m', st') → st'.reader.offset ≤ stop → r' = (.ok (), m', st'.on input')

/-- The read of a call depends on nothing behind `stop`. -/
def Call.SameRead (schema : Schema) (stop : Nat) (input input' : List UInt8) : Call → Prop
  | datum kind st => st.reader.Within input → st.reader.token = none →
    ProtoJson.SameRead stop input' (schema.readDatum kind st)
      (schema.readDatum kind (st.on input'))
  | message index m st => st.reader.Within input → st.reader.token = none →
    SameMessage stop input' (schema.readMessage index m st)
      (schema.readMessage index m (st.on input'))
  | fields index m st => st.reader.Within input → st.reader.token = none →
    SameMessage stop input' (schema.readFields index m st)
      (schema.readFields index m (st.on input'))
  | .slot index target m st => st.reader.Within input → st.reader.token = none →
    SameMessage stop input' (schema.readSlot index target m st)
      (schema.readSlot index target m (st.on input'))
  | elements kind before st => st.reader.Within input → st.reader.token = none →
    ProtoJson.SameRead stop input' (schema.readElements kind before st)
      (schema.readElements kind before (st.on input'))
  | entries keyKind kind before st => st.reader.Within input → st.reader.token = none →
    ProtoJson.SameRead stop input' (schema.readEntries keyKind kind before st)
      (schema.readEntries keyKind kind before (st.on input'))

theorem take_same {α : Type} {r r' : Except SyntaxError α × Reader} (f : α → Datum)
    (h : Follows stop input' s id r r') :
    SameRead stop input' (st.take r f) ((st.on input').take r' f) := by
  intro d st' hres hle
  obtain ⟨e | a, s₁⟩ := r
  · cases hres
  · cases hres
    rw [h.ok a rfl hle]
    rfl

theorem enumeration_on (hagree : Agree stop input input') (h : s.Within input)
    (ht : s.token = none) {e : EnumType} {v : EnumValue} (hres : s.enumeration e = (.ok v, s₁))
    (hle : s₁.offset ≤ stop) : (s.on input').enumeration e = (.ok v, s₁.on input') := by
  have hfollows := enumReference_on hagree h ht
  unfold Reader.enumeration at hres ⊢
  rcases href : s.enumReference with ⟨err | (name | n), s₂⟩ <;> rw [href] at hres hfollows
  · cases hres
  · dsimp only at hres
    cases hv : e.ofName? name with
    | none =>
      rw [hv] at hres
      cases hres
    | some w =>
      rw [hv] at hres
      cases hres
      rw [hfollows.ok _ rfl hle]
      dsimp only [id]
      rw [hv]
  · dsimp only at hres
    cases hv : e.ofNumber? n with
    | none =>
      rw [hv] at hres
      cases hres
    | some w =>
      rw [hv] at hres
      cases hres
      rw [hfollows.ok _ rfl hle]
      dsimp only [id]
      rw [hv]

theorem store_same {α : Type} {r r' : Except ReadError α × Session} (m : Message)
    (put : α → Pools → Message × Pools) (h : SameRead stop input' r r') :
    SameMessage stop input' (Schema.store m put r) (Schema.store m put r') := by
  intro m' st' hres hle
  obtain ⟨e | a, st₁⟩ := r
  · cases hres
  · cases hres
    rw [h a st₁ rfl hle]
    rfl

namespace Schema

theorem readFields_lt {index : Nat} {m m' : Message}
    (h : schema.readFields index m st = (.ok (), m', st')) : st'.remaining < st.remaining := by
  have hlt := (schema.fieldsStep index m st).property ()
  rw [show (schema.fieldsStep index m st).val = _ from h] at hlt
  exact hlt rfl

theorem readElements_lt {kind : Kind} {before ds : List Datum}
    (h : schema.readElements kind before st = (.ok ds, st')) : st'.remaining < st.remaining := by
  have hlt := (schema.elementsStep kind before st).property ds
  rw [show (schema.elementsStep kind before st).val = _ from h] at hlt
  exact hlt rfl

theorem readEntries_lt {keyKind : KeyKind} {kind : Kind} {before es : List (MapKey × Datum)}
    (h : schema.readEntries keyKind kind before st = (.ok es, st')) :
    st'.remaining < st.remaining := by
  have hlt := (schema.entriesStep keyKind kind before st).property es
  rw [show (schema.entriesStep keyKind kind before st).val = _ from h] at hlt
  exact hlt rfl

variable (hagree : Agree stop input input')

include hagree

theorem readDatum_same (kind : Kind)
    (hin : ∀ c', Call.Makes schema (.datum kind st) c' → c'.SameRead schema stop input input')
    (h : st.reader.Within input) (ht : st.reader.token = none) :
    SameRead stop input' (schema.readDatum kind st) (schema.readDatum kind (st.on input')) := by
  cases kind with
  | bool =>
    rw [readDatum_bool, readDatum_bool]
    exact take_same _ (bool_on hagree h ht)
  | integer k =>
    rw [readDatum_integer, readDatum_integer]
    exact take_same _ (integer_on hagree h ht k)
  | float32 =>
    rw [readDatum_float32, readDatum_float32]
    exact take_same _ (binary_on hagree h ht .single)
  | float64 =>
    rw [readDatum_float64, readDatum_float64]
    exact take_same _ (binary_on hagree h ht .double)
  | string =>
    rw [readDatum_string, readDatum_string]
    exact take_same _ (string_on hagree h ht)
  | bytes =>
    rw [readDatum_bytes, readDatum_bytes]
    exact take_same _ (bytes_on hagree h ht)
  | enumeration i =>
    intro d st' hres hle
    rw [readDatum_enumeration] at hres ⊢
    rcases hv : st.reader.enumeration (schema.enumType i) with ⟨e | v, s₁⟩ <;> rw [hv] at hres
    · cases hres
    · cases hres
      have hon := enumeration_on hagree h ht hv hle
      dsimp only
      rw [show (st.on input').reader.enumeration (schema.enumType i) = _ from hon]
      rfl
  | message i =>
    intro d st' hres hle
    -- Both sides take the same message from their pools.
    have hmessage := hin _ .message h ht
    rw [readDatum_message] at hres ⊢
    dsimp only at hres ⊢
    rcases hread : schema.readMessage i (st.pools.acquire schema i).1
      ⟨(st.pools.acquire schema i).2, st.reader⟩ with ⟨e | u, m, st₁⟩ <;> rw [hread] at hres
    · cases hres
    · cases hres
      have hon := hmessage m st' hread hle
      rw [show schema.readMessage i ((st.on input').pools.acquire schema i).1
        ⟨((st.on input').pools.acquire schema i).2, (st.on input').reader⟩ = _ from hon]

theorem readMessage_same (index : Nat) (m : Message)
    (hin : ∀ c', Call.Makes schema (.message index m st) c' → c'.SameRead schema stop input input')
    (h : st.reader.Within input) (ht : st.reader.token = none) :
    SameMessage stop input' (schema.readMessage index m st)
      (schema.readMessage index m (st.on input')) := by
  intro m' st' hres hle
  obtain ⟨s, hs, hfields⟩ := of_readMessage hres
  have hopened := (h.symbol (ascii '{')).arrives hs
  -- The members come after the opening brace, so that brace stands in front of `stop` too.
  have hread : Arrives input s _ st'.reader := readFields_arrives hopened.within hfields
  have hs_on := (symbol_on hagree h ht (ascii '{')).eq_ok hs (le_trans hread.offset_le hle)
  have hfields_on := hin _ (.fields hs) hopened.within hopened.token m' st' hfields hle
  rw [readMessage_eq, show (st.on input').reader.symbol (ascii '{') = _ from hs_on]
  exact hfields_on

theorem readFields_same (index : Nat) (m : Message)
    (hin : ∀ c', Call.Makes schema (.fields index m st) c' → c'.SameRead schema stop input input')
    (h : st.reader.Within input) (ht : st.reader.token = none) :
    SameMessage stop input' (schema.readFields index m st)
      (schema.readFields index m (st.on input')) := by
  intro m' st' hres hle
  have hread := readFields_arrives h hres
  have hstop : st.reader.offset < stop :=
    lt_of_lt_of_le (h.offset_lt hread.within ht (readFields_lt hres)) hle
  have hat_on := (atSymbol_on hagree h ht hstop (ascii '}')).1
  rw [readFields_ok_iff] at hres ⊢
  cases hres with
  | closed hat hclose =>
    exact .closed (hat_on.trans hat) ((close_on hagree h ht (ascii '}') ()).eq_ok hclose hle)
  | @passed key s _ _ hat hkey hslot hrest =>
    have hkeyed := h.string.arrives hkey
    have hcolon : s.colon.Within input := hkeyed.separate (ascii ':')
    have hskips := hcolon.value
    have hcomma := hskips.separate (ascii ',')
    -- The members that follow the value end at the brace, so the value ends in front of it.
    have hlt := lt_of_lt_of_le
      (hcomma.offset_lt hread.within hskips.token (readFields_lt hrest)) hle
    have hvalue : (s.colon.on input').skipValue = s.colon.skipValue.on input' :=
      congrArg Prod.snd (value_on hagree hcolon hkeyed.token hlt)
    have hkey_on := (string_on hagree h ht).eq_ok hkey
      (le_trans hskips.offset_le (Nat.le_of_lt hlt))
    have hrest_on := hin _ (.passed hat hkey hslot) hcomma hskips.token m' st' hrest hle
    apply FieldsRead.passed (hat_on.trans hat) hkey_on hslot
    rw [colon_on, hvalue]
    exact hrest_on
  | stored hat hkey hslot hslots hrest =>
    have hkeyed := h.string.arrives hkey
    have hcolon := hkeyed.separate (ascii ':')
    have hstored := readSlot_arrives hcolon hslots
    have hcomma := hstored.separate (ascii ',')
    have hle₁ := le_trans (readFields_arrives hcomma hrest).offset_le hle
    have hkey_on := (string_on hagree h ht).eq_ok hkey (le_trans hstored.offset_le hle₁)
    have hslots_on := hin _ (.slot hat hkey hslot) hcolon hkeyed.token _ _ hslots hle₁
    have hrest_on := hin _ (.next hat hkey hslot hslots) hcomma hstored.token m' st' hrest hle
    exact .stored (hat_on.trans hat) hkey_on hslot hslots_on hrest_on

/-- A bracket that opens a container is the same in both inputs, if what follows it is. -/
theorem opened_same {α : Type} {b : UInt8}
    {body : Session → Except ReadError α × Session} (h : st.reader.Within input)
    (ht : st.reader.token = none) {a : α} {s : Reader} (hs : st.reader.symbol b = (.ok (), s))
    (hres : body (st.moveTo s) = (.ok a, st')) (hle : st'.reader.offset ≤ stop)
    (hproceeds : s.Within input → Proceeds input s st'.reader)
    (hbody : s.Within input → s.token = none →
      SameRead stop input' (body (st.moveTo s)) (body ((st.moveTo s).on input'))) :
    (st.on input').reader.symbol b = (.ok (), s.on input') ∧
      body ((st.on input').moveTo (s.on input')) = (.ok a, st'.on input') := by
  have hopened := (h.symbol b).arrives hs
  have hread := hproceeds hopened.within
  exact ⟨(symbol_on hagree h ht b).eq_ok hs (le_trans hread.offset_le hle),
    hbody hopened.within hopened.token a st' hres hle⟩

theorem readSlot_same (index : Nat) (target : Slot) (m : Message)
    (hin : ∀ c', Call.Makes schema (.slot index target m st) c' →
      c'.SameRead schema stop input input')
    (h : st.reader.Within input) (ht : st.reader.token = none) :
    SameMessage stop input' (schema.readSlot index target m st)
      (schema.readSlot index target m (st.on input')) := by
  cases target with
  | member j k f =>
    rw [readSlot_member_eq, readSlot_member_eq]
    exact store_same m _ (hin _ .member h ht)
  | plain i f =>
    cases hf : f.cardinality with
    | singular =>
      rw [readSlot_singular_eq index i f hf, readSlot_singular_eq index i f hf]
      exact store_same m _ (hin _ (.singular hf) h ht)
    | list =>
      rw [readSlot_list_eq index i f hf, readSlot_list_eq index i f hf]
      apply store_same
      intro ds st' hres hle
      obtain ⟨s, hs, helements⟩ := of_readList hres
      obtain ⟨hs', helements'⟩ := opened_same hagree h ht hs helements hle
        (fun hwithin => (readElements_arrives hwithin helements).toProceeds) (hin _ (.list hf hs))
      rw [readList, hs']
      exact helements'
    | map keyKind =>
      rw [readSlot_map_eq index i f keyKind hf, readSlot_map_eq index i f keyKind hf]
      apply store_same
      intro es st' hres hle
      obtain ⟨s, hs, hentries⟩ := of_readMap hres
      obtain ⟨hs', hentries'⟩ := opened_same hagree h ht hs hentries hle
        (fun hwithin => (readEntries_arrives hwithin hentries).toProceeds) (hin _ (.map hf hs))
      rw [readMap, hs']
      exact hentries'

theorem readElements_same (kind : Kind) (before : List Datum)
    (hin : ∀ c', Call.Makes schema (.elements kind before st) c' →
      c'.SameRead schema stop input input')
    (h : st.reader.Within input) (ht : st.reader.token = none) :
    SameRead stop input' (schema.readElements kind before st)
      (schema.readElements kind before (st.on input')) := by
  intro ds st' hres hle
  have hread := readElements_arrives h hres
  have hstop : st.reader.offset < stop :=
    lt_of_lt_of_le (h.offset_lt hread.within ht (readElements_lt hres)) hle
  have hat_on := (atSymbol_on hagree h ht hstop (ascii ']')).1
  rw [readElements_ok_iff] at hres ⊢
  cases hres with
  | closed hat hclose =>
    exact .closed (hat_on.trans hat) ((close_on hagree h ht (ascii ']') _).eq_ok hclose hle)
  | element hat hdatum hrest =>
    have hdatums := readDatum_arrives h hdatum
    have hcomma := hdatums.separate (ascii ',')
    have hle₁ := le_trans (readElements_arrives hcomma hrest).offset_le hle
    have hdatum_on := hin _ (.element hat) h ht _ _ hdatum hle₁
    have hrest_on := hin _ (.elements hat hdatum) hcomma hdatums.token ds st' hrest hle
    exact .element (hat_on.trans hat) hdatum_on hrest_on

theorem readEntries_same (keyKind : KeyKind) (kind : Kind) (before : List (MapKey × Datum))
    (hin : ∀ c', Call.Makes schema (.entries keyKind kind before st) c' →
      c'.SameRead schema stop input input')
    (h : st.reader.Within input) (ht : st.reader.token = none) :
    SameRead stop input' (schema.readEntries keyKind kind before st)
      (schema.readEntries keyKind kind before (st.on input')) := by
  intro es st' hres hle
  have hread := readEntries_arrives h hres
  have hstop : st.reader.offset < stop :=
    lt_of_lt_of_le (h.offset_lt hread.within ht (readEntries_lt hres)) hle
  have hat_on := (atSymbol_on hagree h ht hstop (ascii '}')).1
  rw [readEntries_ok_iff] at hres ⊢
  cases hres with
  | closed hat hclose =>
    exact .closed (hat_on.trans hat) ((close_on hagree h ht (ascii '}') before).eq_ok hclose hle)
  | entry hat hkey hdatum hrest =>
    have hkeyed := (h.mapKey keyKind).arrives hkey
    have hcolon := hkeyed.separate (ascii ':')
    have hdatums := readDatum_arrives hcolon hdatum
    have hcomma := hdatums.separate (ascii ',')
    have hle₁ := le_trans (readEntries_arrives hcomma hrest).offset_le hle
    have hkey_on := (mapKey_on hagree h ht keyKind).eq_ok hkey (le_trans hdatums.offset_le hle₁)
    have hdatum_on := hin _ (.entry hat hkey) hcolon hkeyed.token _ _ hdatum hle₁
    have hrest_on := hin _ (.entries hat hkey hdatum) hcomma hdatums.token es st' hrest hle
    exact .entry (hat_on.trans hat) hkey_on hdatum_on hrest_on

end Schema

/-- Every read that decoding consists of depends on nothing behind the brace that it does not
pass. -/
theorem Call.same (hagree : Agree stop input input') (c : Call) :
    c.SameRead schema stop input input' := by
  induction c using Call.induction schema with
  | h c hin =>
    cases c with
    | datum kind st => exact Schema.readDatum_same hagree kind hin
    | message index m st => exact Schema.readMessage_same hagree index m hin
    | fields index m st => exact Schema.readFields_same hagree index m hin
    | slot index target m st => exact Schema.readSlot_same hagree index target m hin
    | elements kind before st => exact Schema.readElements_same hagree kind before hin
    | entries keyKind kind before st =>
      exact Schema.readEntries_same hagree keyKind kind before hin

/-! ## The brace that a message ends with -/

/-- Members end with a closing brace, and the cursor stops right behind it. -/
def Call.EndsWithBrace (schema : Schema) (input : List UInt8) : Call → Prop
  | fields index m st => st.reader.Within input → st.reader.token = none → ∀ m' st',
    schema.readFields index m st = (.ok (), m', st') →
      ∃ x, input = x ++ ascii '}' :: st'.reader.rest
  | _ => True

namespace Schema

theorem readFields_endsWithBrace (index : Nat) (m : Message)
    (hin : ∀ c', Call.Makes schema (.fields index m st) c' → c'.EndsWithBrace schema input) :
    (Call.fields index m st).EndsWithBrace schema input := by
  intro h ht m' st' hres
  cases readFields_ok_iff.1 hres with
  | closed hat hclose =>
    obtain ⟨pad, r, hrest⟩ := atSymbol_inv ht hat
    rw [close_eq () pad (.inl rfl) ht hrest] at hclose
    cases hclose
    -- What was read before, the blanks and the brace make up the input.
    refine ⟨input.take st.reader.offset ++ pad.bytes, ?_⟩
    rw [List.append_assoc]
    show input = input.take st.reader.offset ++ (pad.bytes ++ ascii '}' :: r)
    rw [← hrest, h.rest, List.take_append_drop]
  | passed hat hkey hslot hrest =>
    have hskips := ((h.string.arrives hkey).separate (ascii ':')).value
    have hcomma := hskips.separate (ascii ',')
    exact hin _ (.passed hat hkey hslot) hcomma hskips.token m' st' hrest
  | stored hat hkey hslot hslots hrest =>
    have hstored := readSlot_arrives ((h.string.arrives hkey).separate (ascii ':')) hslots
    have hcomma := hstored.separate (ascii ',')
    exact hin _ (.next hat hkey hslot hslots) hcomma hstored.token m' st' hrest

end Schema

theorem Call.endsWithBrace (schema : Schema) (input : List UInt8) (c : Call) :
    c.EndsWithBrace schema input := by
  induction c using Call.induction schema with
  | h c hin =>
    cases c with
    | fields index m st => exact Schema.readFields_endsWithBrace index m hin
    | _ => trivial

namespace Schema

variable {index : Nat} {options : ReadOptions} {m m' : Message} {ps : Pools}

/-- A message that is decoded ends with a closing brace. -/
theorem unmarshal_endsWithBrace
    (h : schema.unmarshal index input options m ps = (.ok (), m', st')) :
    ∃ x, input = x ++ ascii '}' :: st'.reader.rest ∧ st'.reader.offset = x.length + 1 := by
  have hwithin := within_ofBytes input options
  obtain ⟨s, hs, hfields⟩ := of_readMessage h
  have hopened := (hwithin.symbol (ascii '{')).arrives hs
  have hfields' := Call.endsWithBrace schema input
    (.fields index m (Session.moveTo ⟨ps, ofBytes input options⟩ s)) hopened.within hopened.token
  obtain ⟨x, hx⟩ := hfields' m' st' hfields
  have hread : Arrives input (ofBytes input options) _ st'.reader := readMessage_arrives hwithin h
  have hle := hread.within.offset_le
  have hlen := hread.within.length_rest
  have hinput : input.length = x.length + (st'.reader.rest.length + 1) := by
    rw [hx, List.length_append, List.length_cons]
  refine ⟨x, hx, ?_⟩
  omega

/-- What follows a message that is decoded is not looked at: whatever stands there instead, the
message and the pools are the same and the cursor stops at the same place. -/
theorem unmarshal_take_append
    (h : schema.unmarshal index input options m ps = (.ok (), m', st')) (more : List UInt8) :
    st'.reader.offset ≤ input.length ∧
      schema.unmarshal index (input.take st'.reader.offset ++ more) options m ps
        = (.ok (), m', ⟨st'.pools, { st'.reader with rest := more }⟩) := by
  obtain ⟨x, hx, hoffset⟩ := unmarshal_endsWithBrace h
  have htake : input.take st'.reader.offset = x ++ [ascii '}'] := by
    have hlen : (x ++ [ascii '}']).length = st'.reader.offset := by simp [hoffset]
    rw [hx, List.append_cons, ← hlen, List.take_left]
  have hagree : Agree st'.reader.offset input (input.take st'.reader.offset ++ more) := by
    rw [htake, hoffset, ← List.append_cons]
    conv => enter [2]; rw [hx]
    exact .append_brace x st'.reader.rest more
  have hwithin := within_ofBytes input options
  have hread : Arrives input (ofBytes input options) _ st'.reader := readMessage_arrives hwithin h
  -- The read ends at the brace that both texts have, so it does not see where they part.
  have hsame := Call.same hagree (.message index m ⟨ps, ofBytes input options⟩) hwithin rfl m' st' h
    (le_refl _)
  have hle : st'.reader.offset ≤ input.length := hread.within.offset_le
  have hon : st'.on (input.take st'.reader.offset ++ more)
      = ⟨st'.pools, { st'.reader with rest := more }⟩ := by
    have hdrop : (input.take st'.reader.offset ++ more).drop st'.reader.offset = more := by
      conv => lhs; arg 1; rw [← List.length_take_of_le hle]
      exact List.drop_left
    rw [Session.on, on_eq_of_token _ _ hread.token, hdrop]
  rw [← hon]
  exact ⟨hle, hsame⟩

/-- The text of a node with a member of an unknown key, whose value is a word that is cut off. -/
def cutText : List UInt8 := Utf8.ofString "\x7b\"value\":7,\"x\":tru\x7d"

/-- That node is read, whatever is written behind it. -/
theorem unmarshal_cutText (rest : List UInt8) : ∃ m' st', Example.schema.unmarshal 5
    (cutText ++ rest) {} (Example.schema.emptyMessage 5) (.ofSchema Example.schema)
      = (.ok (), m', st') := by
  have hkey : (Example.schema.messageType 5).slot? ((unknownMember "tru").key.text false)
      = none := by decide +kernel
  have hblank : (atInserted {} .empty .empty sevenMember (unknownMember "tru") .nil
      rest).LeavesBlank (Members.bytes false
        (.nil : Members NumberLiteral StringLiteral) ++ ascii '}' :: rest) := by
    intro v s₁ hread
    have herror : ∃ e s, (atInserted {} .empty .empty sevenMember (unknownMember "tru") .nil
        rest).attempt = (.error e, s) := ⟨_, _, rfl⟩
    obtain ⟨e, s, herror⟩ := herror
    rw [herror] at hread
    cases hread
  have hfront : (sevenMember.assignments Example.schema {} 1 5).all Option.isSome = true := by
    decide +kernel
  have hback : ((.nil : Members NumberLiteral StringLiteral).assignments Example.schema {} 1 5).all
      Option.isSome = true := by
    decide +kernel
  have htext : Blanks.empty.bytes ++ insertedText .empty sevenMember (unknownMember "tru") .nil
      = cutText := by
    decide +kernel
  obtain ⟨st', hread⟩ := unmarshal_inserted hfront hback (emptyMessage_ofType 5)
    reachable_ofSchema.clean hkey (by decide +kernel) hblank
  rw [htext] at hread
  exact ⟨_, st', hread⟩

/-- A bracket behind the node may be a comma and a quote as well. -/
theorem unmarshal_take_append_cutText :
    ∃ m' st', Example.schema.unmarshal 5 (cutText ++ Utf8.ofString "]") {}
        (Example.schema.emptyMessage 5) (.ofSchema Example.schema) = (.ok (), m', st') ∧
      Example.schema.unmarshal 5 ((cutText ++ Utf8.ofString "]").take st'.reader.offset
        ++ Utf8.ofString ",\"") {} (Example.schema.emptyMessage 5) (.ofSchema Example.schema)
        = (.ok (), m', ⟨st'.pools, { st'.reader with rest := Utf8.ofString ",\"" }⟩) := by
  obtain ⟨m', st', hread⟩ := unmarshal_cutText (Utf8.ofString "]")
  exact ⟨m', st', hread, (unmarshal_take_append hread _).2⟩

end Schema

end ProtoJson
