import ProtoJson.Proofs.Message.Pools
import ProtoJson.Proofs.Message.Writing

/-!
# Reuse of objects and buffers

A decoder that draws on clean pools cannot be told from one that draws on empty ones, and what a
buffer held before it was reset does not show in what is written into it. So a program that shares
its pools among all its steps sees what it would see if every step had new ones.
-/

namespace ProtoJson

/-! ## Two decoders -/

/-- Two reads with the same outcome, which leave the readers at the same place. -/
structure Alike {α : Type} (r r' : Except ReadError α × Session) : Prop where
  result : r.1 = r'.1
  reader : r.2.reader = r'.2.reader

/-- Two reads into a message with the same outcome, which leave equal messages. -/
structure AlikeMessage (r r' : Except ReadError Unit × Message × Session) : Prop where
  result : r.1 = r'.1
  message : r.2.1 = r'.2.1
  reader : r.2.2.reader = r'.2.2.reader

/-- Only the pools may differ. -/
theorem Alike.exists_pools {α : Type} {r r' : Except ReadError α × Session} (h : Alike r r') :
    ∃ res s ps ps', r = (res, ⟨ps, s⟩) ∧ r' = (res, ⟨ps', s⟩) := by
  obtain ⟨res, ps, s⟩ := r
  obtain ⟨res', ps', s'⟩ := r'
  obtain rfl : res = res' := h.result
  obtain rfl : s = s' := h.reader
  exact ⟨res, s, ps, ps', rfl, rfl⟩

theorem AlikeMessage.exists_pools {r r' : Except ReadError Unit × Message × Session}
    (h : AlikeMessage r r') :
    ∃ res m s ps ps', r = (res, m, ⟨ps, s⟩) ∧ r' = (res, m, ⟨ps', s⟩) := by
  obtain ⟨res, m, ps, s⟩ := r
  obtain ⟨res', m', ps', s'⟩ := r'
  obtain rfl : res = res' := h.result
  obtain rfl : m = m' := h.message
  obtain rfl : s = s' := h.reader
  exact ⟨res, m, s, ps, ps', rfl, rfl⟩

variable {schema : Schema}

namespace Schema

/-- What is put into a message does not depend on where the messages that it replaces go. -/
theorem store_alike {α : Type} {m : Message} {put : α → Pools → Message × Pools}
    {r r' : Except ReadError α × Session} (h : Alike r r')
    (hput : ∀ a ps ps', (put a ps).1 = (put a ps').1) :
    AlikeMessage (store m put r) (store m put r') := by
  obtain ⟨res, s, ps, ps', rfl, rfl⟩ := h.exists_pools
  cases res with
  | error e => exact ⟨rfl, rfl, rfl⟩
  | ok a => exact ⟨rfl, hput a ps ps', rfl⟩

end Schema

/-- The read of a call cannot be told from the same read with other clean pools. -/
def Call.Alike (schema : Schema) : Call → Prop
  | datum kind st => ∀ ps', st.pools.Clean schema → ps'.Clean schema →
    ProtoJson.Alike (schema.readDatum kind st) (schema.readDatum kind ⟨ps', st.reader⟩)
  | message index m st => ∀ ps', m.OfType schema index → st.pools.Clean schema →
    ps'.Clean schema →
    AlikeMessage (schema.readMessage index m st) (schema.readMessage index m ⟨ps', st.reader⟩)
  | fields index m st => ∀ ps', m.OfType schema index → st.pools.Clean schema →
    ps'.Clean schema →
    AlikeMessage (schema.readFields index m st) (schema.readFields index m ⟨ps', st.reader⟩)
  | .slot index target m st => ∀ ps', st.pools.Clean schema → ps'.Clean schema →
    AlikeMessage (schema.readSlot index target m st)
      (schema.readSlot index target m ⟨ps', st.reader⟩)
  | elements kind before st => ∀ ps', st.pools.Clean schema → ps'.Clean schema →
    ProtoJson.Alike (schema.readElements kind before st)
      (schema.readElements kind before ⟨ps', st.reader⟩)
  | entries keyKind kind before st => ∀ ps', (∀ e ∈ before, e.2.OfKind schema kind) →
    st.pools.Clean schema → ps'.Clean schema →
    ProtoJson.Alike (schema.readEntries keyKind kind before st)
      (schema.readEntries keyKind kind before ⟨ps', st.reader⟩)

namespace Schema

variable {s : Reader} {ps : Pools}

/-- A value is read alike from any clean pools. -/
theorem readDatum_alike (kind : Kind)
    (hin : ∀ c', Call.Makes schema (.datum kind ⟨ps, s⟩) c' → c'.Alike schema) :
    (Call.datum kind ⟨ps, s⟩).Alike schema := by
  intro ps' h h'
  cases kind with
  | bool =>
    rw [readDatum_bool, readDatum_bool]
    exact ⟨rfl, rfl⟩
  | integer k =>
    rw [readDatum_integer, readDatum_integer]
    exact ⟨rfl, rfl⟩
  | float32 =>
    rw [readDatum_float32, readDatum_float32]
    exact ⟨rfl, rfl⟩
  | float64 =>
    rw [readDatum_float64, readDatum_float64]
    exact ⟨rfl, rfl⟩
  | string =>
    rw [readDatum_string, readDatum_string]
    exact ⟨rfl, rfl⟩
  | bytes =>
    rw [readDatum_bytes, readDatum_bytes]
    exact ⟨rfl, rfl⟩
  | enumeration i =>
    rw [readDatum_enumeration, readDatum_enumeration]
    exact ⟨rfl, rfl⟩
  | message i =>
    -- Whichever message is taken, no field of it is set.
    obtain ⟨hm, hps⟩ := h.acquire i
    obtain ⟨hm', hps'⟩ := h'.acquire i
    have hread := hin _ .message (ps'.acquire schema i).2 (hm ▸ emptyMessage_ofType i) hps hps'
    obtain ⟨res, m, s₁, ps₁, ps₁', hr, hr'⟩ := hread.exists_pools
    rw [readDatum_message, readDatum_message]
    dsimp only at hr hr' ⊢
    rw [hm', ← hm, hr, hr']
    cases res with
    | error e => exact ⟨rfl, rfl⟩
    | ok u => exact ⟨rfl, rfl⟩

theorem readMessage_alike (index : Nat) (m : Message)
    (hin : ∀ c', Call.Makes schema (.message index m ⟨ps, s⟩) c' → c'.Alike schema) :
    (Call.message index m ⟨ps, s⟩).Alike schema := by
  intro ps' hm h h'
  rw [readMessage_eq, readMessage_eq]
  dsimp only
  rcases hs : s.symbol (ascii '{') with ⟨e | u, s₁⟩
  · exact ⟨rfl, rfl, rfl⟩
  · exact hin _ (.fields hs) ps' hm h h'

theorem readFields_alike (index : Nat) (m : Message)
    (hin : ∀ c', Call.Makes schema (.fields index m ⟨ps, s⟩) c' → c'.Alike schema) :
    (Call.fields index m ⟨ps, s⟩).Alike schema := by
  intro ps' hm h h'
  rw [readFields_eq, readFields_eq]
  dsimp only
  cases hat : s.atSymbol (ascii '}') with
  | true => exact ⟨rfl, rfl, rfl⟩
  | false =>
    rw [if_neg (by simp), if_neg (by simp)]
    rcases hkey : s.string with ⟨e | key, s₁⟩
    · exact ⟨rfl, rfl, rfl⟩
    · dsimp only
      cases hslot : (schema.messageType index).slot? key with
      -- The value of an unknown key is passed without the pools.
      | none => exact hin _ (.passed hat hkey hslot) ps' hm h h'
      | some target =>
        have hisOf := MessageType.slot?_isOf hslot
        have hread := hin _ (.slot hat hkey hslot) ps' h h'
        have hsound := Call.sound schema (.slot index target m ⟨ps, s₁.colon⟩) hisOf hm h
        have hsound' := Call.sound schema (.slot index target m ⟨ps', s₁.colon⟩) hisOf hm h'
        obtain ⟨res, m₁, s₂, ps₁, ps₁', hr, hr'⟩ := hread.exists_pools
        dsimp only [Session.moveTo] at hr hr' ⊢
        rw [hr] at hsound
        rw [hr'] at hsound'
        rw [hr, hr']
        cases res with
        | error e => exact ⟨rfl, rfl, rfl⟩
        | ok u =>
          exact hin _ (.next hat hkey hslot hr) ps₁' hsound.1 hsound.2 hsound'.2

theorem readSlot_alike (index : Nat) (target : Slot) (m : Message)
    (hin : ∀ c', Call.Makes schema (.slot index target m ⟨ps, s⟩) c' → c'.Alike schema) :
    (Call.slot index target m ⟨ps, s⟩).Alike schema := by
  intro ps' h h'
  cases target with
  | member j k f =>
    rw [readSlot_member_eq, readSlot_member_eq]
    exact store_alike (hin _ .member ps' h h') fun _ _ _ => rfl
  | plain i f =>
    cases hf : f.cardinality with
    | singular =>
      rw [readSlot_singular_eq index i f hf, readSlot_singular_eq index i f hf]
      exact store_alike (hin _ (.singular hf) ps' h h') fun _ _ _ => rfl
    | list =>
      rw [readSlot_list_eq index i f hf, readSlot_list_eq index i f hf]
      refine store_alike ?_ fun _ _ _ => rfl
      rw [readList, readList]
      dsimp only
      rcases hs : s.symbol (ascii '[') with ⟨e | u, s₁⟩
      · exact ⟨rfl, rfl⟩
      · exact hin _ (.list hf hs) ps' h h'
    | map keyKind =>
      rw [readSlot_map_eq index i f keyKind hf, readSlot_map_eq index i f keyKind hf]
      refine store_alike ?_ fun _ _ _ => rfl
      rw [readMap, readMap]
      dsimp only
      rcases hs : s.symbol (ascii '{') with ⟨e | u, s₁⟩
      · exact ⟨rfl, rfl⟩
      · exact hin _ (.map hf hs) ps' (List.forall_mem_nil _) h h'

theorem readElements_alike (kind : Kind) (before : List Datum)
    (hin : ∀ c', Call.Makes schema (.elements kind before ⟨ps, s⟩) c' → c'.Alike schema) :
    (Call.elements kind before ⟨ps, s⟩).Alike schema := by
  intro ps' h h'
  rw [readElements_eq, readElements_eq]
  dsimp only
  cases hat : s.atSymbol (ascii ']') with
  | true => exact ⟨rfl, rfl⟩
  | false =>
    have hsound := Call.sound schema (.datum kind ⟨ps, s⟩) h
    have hsound' := Call.sound schema (.datum kind ⟨ps', s⟩) h'
    obtain ⟨res, s₁, ps₁, ps₁', hr, hr'⟩ := (hin _ (.element hat) ps' h h').exists_pools
    dsimp only at hr'
    rw [hr] at hsound
    rw [hr'] at hsound'
    rw [if_neg (by simp), if_neg (by simp), hr, hr']
    cases res with
    | error e => exact ⟨rfl, rfl⟩
    | ok d => exact hin _ (.elements hat hr) ps₁' hsound.2 hsound'.2

theorem readEntries_alike (keyKind : KeyKind) (kind : Kind) (before : List (MapKey × Datum))
    (hin : ∀ c', Call.Makes schema (.entries keyKind kind before ⟨ps, s⟩) c' → c'.Alike schema) :
    (Call.entries keyKind kind before ⟨ps, s⟩).Alike schema := by
  intro ps' hbefore h h'
  rw [readEntries_eq, readEntries_eq]
  dsimp only
  cases hat : s.atSymbol (ascii '}') with
  | true => exact ⟨rfl, rfl⟩
  | false =>
    rw [if_neg (by simp), if_neg (by simp)]
    rcases hs : s.mapKey keyKind with ⟨e | key, s₁⟩
    · exact ⟨rfl, rfl⟩
    · have hsound := Call.sound schema (.datum kind ⟨ps, s₁.colon⟩) h
      have hsound' := Call.sound schema (.datum kind ⟨ps', s₁.colon⟩) h'
      obtain ⟨res, s₂, ps₁, ps₁', hr, hr'⟩ := (hin _ (.entry hat hs) ps' h h').exists_pools
      dsimp only [Session.moveTo] at hr hr' ⊢
      rw [hr] at hsound
      rw [hr'] at hsound'
      rw [hr, hr']
      cases res with
      | error e => exact ⟨rfl, rfl⟩
      | ok d =>
        -- What is replaced goes back to the pools on either side.
        have hreplaced := replaced_ofKind key d hbefore
        exact hin _ (.entries hat hs hr) _ (insertEntry_ofKind key (hsound.1 d rfl) hbefore)
          (recycleReplaced_clean hreplaced hsound.2) (recycleReplaced_clean hreplaced hsound'.2)

end Schema

/-- Every read that decoding consists of is the same with any clean pools. -/
theorem Call.alike (schema : Schema) (c : Call) : c.Alike schema := by
  induction c using Call.induction schema with
  | h c hin =>
    cases c with
    | datum kind st => exact Schema.readDatum_alike kind hin
    | message index m st => exact Schema.readMessage_alike index m hin
    | fields index m st => exact Schema.readFields_alike index m hin
    | slot index target m st => exact Schema.readSlot_alike index target m hin
    | elements kind before st => exact Schema.readElements_alike kind before hin
    | entries keyKind kind before st => exact Schema.readEntries_alike keyKind kind before hin

/-! ## Two buffers -/

namespace Buffer

/-- A writer that does not see how much room is set aside in the buffer. -/
def IgnoresRoom (write : Buffer → Buffer) : Prop :=
  ∀ b b' : Buffer, b.toList = b'.toList → (write b).toList = (write b').toList

variable {v w : Buffer → Buffer}

theorem IgnoresRoom.comp (hv : IgnoresRoom v) (hw : IgnoresRoom w) :
    IgnoresRoom fun b => w (v b) := by
  intro b b' h
  exact hw _ _ (hv b b' h)

theorem ignoresRoom_id : IgnoresRoom fun b => b := fun _ _ h => h

/-- Writers that append the same text to every buffer do not see the room. -/
theorem ignoresRoom_of_appends {x : List UInt8} (h : ∀ b, (w b).toList = b.toList ++ x) :
    IgnoresRoom w := by
  intro b b' hb
  rw [h, h, hb]

theorem ignoresRoom_writeByte (byte : UInt8) : IgnoresRoom (·.writeByte byte) :=
  ignoresRoom_of_appends fun b => toList_writeByte b byte

theorem ignoresRoom_writeQuoted (s : String) : IgnoresRoom (·.writeQuoted s) :=
  ignoresRoom_of_appends fun b => toList_writeQuoted b s

theorem ignoresRoom_closeWith (bracket : Char) : IgnoresRoom (·.closeWith bracket) := by
  intro b b' h
  show (b.closeWith bracket).toList = (b'.closeWith bracket).toList
  rw [closeWith, closeWith, toList_writeByte, toList_writeByte, toList_dropComma,
    toList_dropComma, h]

end Buffer

open Buffer

theorem EnumType.ignoresRoom_write (e : EnumType) (number : Int) : IgnoresRoom (e.write number) :=
  ignoresRoom_writeQuoted _

theorem Field.ignoresRoom_writeKey (f : Field) : IgnoresRoom f.writeKey :=
  ignoresRoom_of_appends fun b => toList_write b _

theorem MapKey.ignoresRoom_writeMember (key : MapKey) : IgnoresRoom key.writeMember :=
  ignoresRoom_of_appends fun b => (key.toList_writeMember b).trans (List.append_assoc ..)

mutual

theorem Datum.ignoresRoom_write (kind : Kind) (d : Datum) :
    IgnoresRoom (d.write schema kind) := by
  cases d with
  | bool v => exact ignoresRoom_of_appends fun b => toList_writeBool b v
  | integer v => exact ignoresRoom_of_appends fun b => toList_writeInteger b v
  | float32 x => exact ignoresRoom_of_appends fun b => toList_writeChars b x.text
  | float64 x => exact ignoresRoom_of_appends fun b => toList_writeChars b x.text
  | string s => exact ignoresRoom_writeQuoted s
  | bytes bs => exact ignoresRoom_of_appends fun b => toList_writeBase64 b bs
  | enumeration number =>
    cases kind with
    | enumeration i => exact (schema.enumType i).ignoresRoom_write number
    | _ => exact ignoresRoom_of_appends fun b => toList_writeInteger b number
  | message m =>
    cases kind with
    | message i => exact Message.ignoresRoom_write i m
    | _ => exact ignoresRoom_id

theorem ignoresRoom_writeElements (kind : Kind) (ds : List Datum) :
    IgnoresRoom (writeElements schema kind ds) := by
  cases ds with
  | nil => exact ignoresRoom_id
  | cons d ds =>
    have hd := (Datum.ignoresRoom_write kind d).comp (ignoresRoom_writeByte (ascii ','))
    exact hd.comp (ignoresRoom_writeElements kind ds)

theorem ignoresRoom_writeEntries (kind : Kind) (es : List (MapKey × Datum)) :
    IgnoresRoom (writeEntries schema kind es) := by
  cases es with
  | nil => exact ignoresRoom_id
  | cons e es =>
    obtain ⟨key, d⟩ := e
    have hd := (key.ignoresRoom_writeMember.comp (Datum.ignoresRoom_write kind d)).comp
      (ignoresRoom_writeByte (ascii ','))
    exact hd.comp (ignoresRoom_writeEntries kind es)

theorem Content.ignoresRoom_write (kind : Kind) (c : Content) :
    IgnoresRoom (c.write schema kind) := by
  cases c with
  | absent => exact ignoresRoom_id
  | single d => exact Datum.ignoresRoom_write kind d
  | list ds =>
    have hds := (ignoresRoom_writeByte (ascii '[')).comp (ignoresRoom_writeElements kind ds)
    exact hds.comp (ignoresRoom_closeWith ']')
  | map es =>
    have hes := (ignoresRoom_writeByte (ascii '{')).comp (ignoresRoom_writeEntries kind es)
    exact hes.comp (ignoresRoom_closeWith '}')

theorem ignoresRoom_writePlain (cs : List Content) (fs : List Field) :
    IgnoresRoom (writePlain schema cs fs) := by
  cases cs with
  | nil =>
    intro b b' h
    rw [writePlain, writePlain]
    · exact h
    all_goals simp
  | cons c cs =>
    cases fs with
    | nil => exact ignoresRoom_id
    | cons f fs =>
      have hrest := ignoresRoom_writePlain cs fs
      have hc := (f.ignoresRoom_writeKey.comp (Content.ignoresRoom_write f.kind c)).comp
        (ignoresRoom_writeByte (ascii ','))
      intro b b' h
      rw [writePlain, writePlain]
      split
      · exact hrest b b' h
      · exact hc.comp hrest b b' h

theorem ignoresRoom_writeChoices (type : MessageType) (cs : List Choice) (index : Nat) :
    IgnoresRoom (writeChoices schema type cs index) := by
  cases cs with
  | nil => exact ignoresRoom_id
  | cons c cs =>
    have hrest := ignoresRoom_writeChoices type cs (index + 1)
    cases c with
    | unset => exact hrest
    | member k d =>
      intro b b' h
      rw [writeChoices, writeChoices]
      cases hf : (type.members index)[k]? with
      | none => exact hrest b b' h
      | some f =>
        have hd := (f.ignoresRoom_writeKey.comp (Datum.ignoresRoom_write f.kind d)).comp
          (ignoresRoom_writeByte (ascii ','))
        exact hd.comp hrest b b' h

/-- A message is written alike into buffers with the same content. -/
theorem Message.ignoresRoom_write (index : Nat) (m : Message) :
    IgnoresRoom (m.write schema index) := by
  cases m with
  | mk plain choices =>
    have hplain := (ignoresRoom_writeByte (ascii '{')).comp
      (ignoresRoom_writePlain plain (schema.messageType index).plainFields)
    have hchoices := ignoresRoom_writeChoices (schema.messageType index) choices 0
    exact (hplain.comp hchoices).comp (ignoresRoom_closeWith '}')

end

/-- The text of a message does not depend on the buffer that it is written in. -/
theorem Schema.marshal_fst (schema : Schema) (index : Nat) (m : Message) (buffers : Pool Buffer) :
    (schema.marshal index m buffers).1 = schema.json index m := by
  apply Message.ignoresRoom_write index m
  exact toList_reset _

/-! ## Runs -/

/-- What a program has: the objects in use, each with the number of its type, a buffer of its own,
and the pools. -/
structure Workspace where
  objects : List (Nat × Message)
  sink : Buffer
  pools : Pools
  buffers : Pool Buffer

/-- What a program may do. Objects are named by their place among those in use. -/
inductive Command where
  /-- Takes a new object of a type. -/
  | newIn (type : Nat)
  /-- Decodes an input into an object. -/
  | unmarshal (object : Nat) (input : List UInt8) (options : ReadOptions)
  /-- Encodes an object in a buffer of the pool. -/
  | marshal (object : Nat)
  /-- Appends the text of an object to the buffer of the program. -/
  | marshalInto (object : Nat)
  /-- Returns an object. -/
  | destruct (object : Nat)

/-- What a program sees of a command. -/
inductive Outcome where
  | created (m : Message)
  | decoded (result : Except ReadError Unit) (m : Message)
  | written (bytes : List UInt8)
  | destroyed
  /-- There is no such object. -/
  | missing

namespace Workspace

/-- Carries out a command. -/
def step (schema : Schema) (w : Workspace) : Command → Outcome × Workspace
  | .newIn type =>
    let (m, ps) := w.pools.acquire schema type
    (.created m, { w with objects := w.objects ++ [(type, m)], pools := ps })
  | .unmarshal object input options =>
    match w.objects[object]? with
    | none => (.missing, w)
    | some (type, m) =>
      let (result, m, st) := schema.unmarshal type input options m w.pools
      (.decoded result m, { w with objects := w.objects.set object (type, m), pools := st.pools })
  | .marshal object =>
    match w.objects[object]? with
    | none => (.missing, w)
    | some (type, m) =>
      let (bytes, buffers) := schema.marshal type m w.buffers
      (.written bytes, { w with buffers })
  | .marshalInto object =>
    match w.objects[object]? with
    | none => (.missing, w)
    | some (type, m) =>
      let sink := schema.marshalInto type m w.sink
      (.written sink.toList, { w with sink })
  | .destruct object =>
    match w.objects[object]? with
    | none => (.missing, w)
    | some (type, m) =>
      (.destroyed, { w with
        objects := w.objects.eraseIdx object
        pools := m.recycle schema type w.pools })

/-- Carries out commands in turn. -/
def run (schema : Schema) (w : Workspace) : List Command → List Outcome × Workspace
  | [] => ([], w)
  | c :: cs =>
    let (o, w) := w.step schema c
    let (os, w) := w.run schema cs
    (o :: os, w)

/-- The workspace with new pools in place of those that it has. -/
def renew (schema : Schema) (w : Workspace) : Workspace :=
  { w with pools := .ofSchema schema, buffers := .empty }

/-- Carries out commands in turn, each with new pools. -/
def runRenewed (schema : Schema) (w : Workspace) : List Command → List Outcome × Workspace
  | [] => ([], w)
  | c :: cs =>
    let (o, w) := (w.renew schema).step schema c
    let (os, w) := w.runRenewed schema cs
    (o :: os, w)

/-- Objects of their types, and pools in which no message has a field set. -/
structure Sound (schema : Schema) (w : Workspace) : Prop where
  typed : ∀ o ∈ w.objects, o.2.OfType schema o.1
  clean : w.pools.Clean schema

/-- Two workspaces that differ in their pools alone. -/
structure Matches (w w' : Workspace) : Prop where
  objects : w.objects = w'.objects
  sink : w.sink = w'.sink

variable {w w' : Workspace}

theorem Sound.object {object type : Nat} {m : Message} (h : w.Sound schema)
    (hm : w.objects[object]? = some (type, m)) : m.OfType schema type :=
  h.typed (type, m) (List.mem_of_getElem? hm)

/-- New pools may be had at any time. -/
theorem Sound.renew (h : w.Sound schema) : (w.renew schema).Sound schema where
  typed := h.typed
  clean := Pools.clean_of_idle (Pools.idle_ofSchema schema)

/-- A command leaves the objects in their types and the pools clean. -/
theorem Sound.step (h : w.Sound schema) (c : Command) : (w.step schema c).2.Sound schema := by
  cases c with
  | newIn type =>
    obtain ⟨hm, hps⟩ := h.clean.acquire type
    refine ⟨fun o ho => ?_, hps⟩
    rcases List.mem_append.1 ho with ho | ho
    · exact h.typed o ho
    · rw [List.mem_singleton.1 ho]
      show (w.pools.acquire schema type).1.OfType schema type
      rw [hm]
      exact Schema.emptyMessage_ofType type
  | unmarshal object input options =>
    rw [Workspace.step]
    split
    · exact h
    · next type m hobject =>
      have hread := Call.sound schema (.message type m ⟨w.pools, .ofBytes input options⟩)
        (h.object hobject) h.clean
      refine ⟨fun o ho => ?_, hread.2⟩
      rcases List.mem_or_eq_of_mem_set ho with ho | rfl
      · exact h.typed o ho
      · exact hread.1
  | marshal object =>
    rw [Workspace.step]
    split
    · exact h
    · exact ⟨h.typed, h.clean⟩
  | marshalInto object =>
    rw [Workspace.step]
    split
    · exact h
    · exact ⟨h.typed, h.clean⟩
  | destruct object =>
    rw [Workspace.step]
    split
    · exact h
    · next type m hobject =>
      refine ⟨fun o ho => h.typed o (List.mem_of_mem_eraseIdx ho), ?_⟩
      exact Message.recycle_clean type m w.pools (h.object hobject) h.clean

/-- A command does the same to workspaces that differ in their pools alone. -/
theorem Matches.step (hw : w.Matches w') (h : w.Sound schema) (h' : w'.Sound schema)
    (c : Command) : (w.step schema c).1 = (w'.step schema c).1 ∧
      (w.step schema c).2.Matches (w'.step schema c).2 := by
  obtain ⟨objects, sink, ps, buffers⟩ := w
  obtain ⟨objects', sink', ps', buffers'⟩ := w'
  obtain rfl : objects = objects' := hw.objects
  obtain rfl : sink = sink' := hw.sink
  cases c with
  | newIn type =>
    -- Clean pools give an empty message, whichever they are.
    have hm : (ps.acquire schema type).1 = (ps'.acquire schema type).1 :=
      (h.clean.acquire type).1.trans (h'.clean.acquire type).1.symm
    dsimp only [Workspace.step]
    rw [hm]
    exact ⟨rfl, rfl, rfl⟩
  | unmarshal object input options =>
    dsimp only [Workspace.step]
    cases hobject : objects[object]? with
    | none => exact ⟨rfl, rfl, rfl⟩
    | some o =>
      obtain ⟨type, m⟩ := o
      have hread := Call.alike schema (.message type m ⟨ps, .ofBytes input options⟩) ps'
        (h.object hobject) h.clean h'.clean
      obtain ⟨res, m₁, s, ps₁, ps₁', hr, hr'⟩ := hread.exists_pools
      dsimp only [Schema.unmarshal]
      rw [hr, hr']
      exact ⟨rfl, rfl, rfl⟩
  | marshal object =>
    dsimp only [Workspace.step]
    cases objects[object]? with
    | none => exact ⟨rfl, rfl, rfl⟩
    | some o =>
      refine ⟨?_, rfl, rfl⟩
      dsimp only
      rw [Schema.marshal_fst, Schema.marshal_fst]
  | marshalInto object =>
    dsimp only [Workspace.step]
    cases objects[object]? with
    | none => exact ⟨rfl, rfl, rfl⟩
    | some o => exact ⟨rfl, rfl, rfl⟩
  | destruct object =>
    dsimp only [Workspace.step]
    cases objects[object]? with
    | none => exact ⟨rfl, rfl, rfl⟩
    | some o => exact ⟨rfl, rfl, rfl⟩

/-- Over a whole run, shared pools stay clean and cannot be told from new ones. -/
theorem Matches.run (hw : w.Matches w') (h : w.Sound schema) (h' : w'.Sound schema)
    (cs : List Command) : (w.run schema cs).1 = (w'.runRenewed schema cs).1 ∧
      (w.run schema cs).2.Sound schema := by
  induction cs generalizing w w' with
  | nil => exact ⟨rfl, h⟩
  | cons c cs ih =>
    -- New pools are clean as well, so one step cannot tell them from the shared ones.
    have hrenewed : w.Matches (w'.renew schema) := ⟨hw.objects, hw.sink⟩
    obtain ⟨houtcome, hmatches⟩ := hrenewed.step h h'.renew c
    obtain ⟨hrest, hsound⟩ := ih hmatches (h.step c) (h'.renew.step c)
    refine ⟨?_, hsound⟩
    rw [Workspace.run, runRenewed]
    dsimp only
    rw [houtcome, hrest]

/-- A program whose pools start out without messages, and with any buffers, sees at each step what
it would see if the step had new pools. The messages that wait in its pools have no field set. -/
theorem run_eq_runRenewed (w : Workspace) (hobjects : ∀ o ∈ w.objects, o.2.OfType schema o.1)
    (hpools : ∀ p ∈ w.pools.pools, p.idle = []) (cs : List Command) :
    (w.run schema cs).1 = (w.runRenewed schema cs).1 ∧
      ∀ (i : Nat) (p : Pool Message), (w.run schema cs).2.pools.pools[i]? = some p →
        ∀ m ∈ p.idle, m = schema.emptyMessage i := by
  have hsound : w.Sound schema := ⟨hobjects, Pools.clean_of_idle hpools⟩
  have hself : w.Matches w := ⟨rfl, rfl⟩
  obtain ⟨houtcomes, hend⟩ := hself.run hsound hsound cs
  exact ⟨houtcomes, hend.clean⟩

/-- A workspace of the example whose idle buffer still holds a text. -/
def usedBuffer : Workspace where
  objects := []
  sink := .empty
  pools := .ofSchema Example.schema
  buffers := { capacity := 4, idle := [⟨#[1, 2, 3], 8⟩] }

/-- A node is decoded, encoded in the buffer and returned, and another one is taken. -/
def nodeCommands : List Command :=
  [.newIn 5, .unmarshal 0 (Utf8.ofString "\x7b\"value\":7\x7d") {}, .marshal 0, .destruct 0,
    .newIn 5]

theorem run_eq_runRenewed_node :
    (∀ o ∈ usedBuffer.objects, o.2.OfType Example.schema o.1) ∧
      (∀ p ∈ usedBuffer.pools.pools, p.idle = []) ∧
      (usedBuffer.run Example.schema nodeCommands).1
        = (usedBuffer.runRenewed Example.schema nodeCommands).1 := by
  have hobjects : ∀ o ∈ usedBuffer.objects, o.2.OfType Example.schema o.1 := by
    intro o ho
    cases ho
  have hpools : ∀ p ∈ usedBuffer.pools.pools, p.idle = [] := Pools.idle_ofSchema Example.schema
  exact ⟨hobjects, hpools, (run_eq_runRenewed usedBuffer hobjects hpools nodeCommands).1⟩

end Workspace

end ProtoJson
