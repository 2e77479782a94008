import ProtoJson.Proofs.Message.Calls
import ProtoJson.Proofs.Reader.Bounds

/-!
# Reads in any sequence

A reader may be used in any order, and after errors too. Each call moves the cursor forward within
the input, keeps a token only in front of the cursor, opens no more containers than may be open and
reports errors at or before the cursor; values of any shape, and messages that are decoded, leave as
many containers open as they have found.
-/

namespace ProtoJson

/-! ## Decoding -/

section

open Reader

variable {input : List UInt8} {s s' s₁ : Reader} {d : Nat} {α : Type} {res : Except ReadError α}

/-- A read of the decoder that comes to `res` and leaves the reader at `s'` moves the cursor
forward, and a syntax error stands at or before the cursor. If it succeeds, no token is kept and `d`
containers are open. -/
structure Decodes (input : List UInt8) (s : Reader) (d : Nat) {α : Type} (res : Except ReadError α)
    (s' : Reader) : Prop where
  proceeds : Proceeds input s s'
  located : ∀ e, res = .error (.malformed e) → e.offset ≤ s'.offset
  leaves : ∀ a, res = .ok a → s'.token = none ∧ s'.depth = d

namespace Decodes

theorem after (h : Proceeds input s s₁) (hr : Decodes input s₁ d res s') :
    Decodes input s d res s' := ⟨h.trans hr.proceeds, hr.located, hr.leaves⟩

/-- The error of a read that is made on the way ends the read. -/
theorem failed {β : Type} {e : ReadError}
    (h : Decodes input s d (.error e : Except ReadError α) s') (d' : Nat) :
    Decodes input s d' (.error e : Except ReadError β) s' := by
  refine ⟨h.proceeds, fun e' he' => ?_, fun b hb => ?_⟩
  · cases he'
    exact h.located e' rfl
  · cases hb

theorem ok {a : α} (h : Proceeds input s s') (ht : s'.token = none) (hd : s'.depth = d) :
    Decodes input s d (.ok a : Except ReadError α) s' := by
  refine ⟨h, fun e he => ?_, fun _ _ => ⟨ht, hd⟩⟩
  cases he

/-- Something else may be made of what is read. -/
theorem map {β : Type} (h : Decodes input s d res s') (f : α → β) :
    Decodes input s d (res.map f) s' := by
  cases res with
  | error e => exact h.failed d
  | ok a =>
    obtain ⟨htoken, hdepth⟩ := h.leaves a rfl
    exact .ok h.proceeds htoken hdepth

theorem of_reads {r : Except SyntaxError α × Reader} (h : Reads input s d r) :
    Decodes input s d (r.1.mapError .malformed) r.2 := by
  obtain ⟨e | a, s₁⟩ := r
  · refine ⟨h.proceeds, fun e' he => ?_, fun a ha => ?_⟩
    · cases he
      exact h.located e rfl
    · cases ha
  · obtain ⟨htoken, hdepth⟩ := h.leaves a rfl
    exact .ok h.proceeds htoken hdepth

theorem take {st : Session} {r : Except SyntaxError α × Reader} (f : α → Datum)
    (h : Reads input st.reader d r) :
    Decodes input st.reader d (st.take r f).1 (st.take r f).2.reader := by
  obtain ⟨e | a, s₁⟩ := r <;> exact (of_reads h).map f

/-- An enum value that is not declared is no syntax error. -/
theorem enumeration (h : s.Within input) (e : EnumType) :
    Decodes input s s.depth (s.enumeration e).1 (s.enumeration e).2 := by
  have hreads := h.enumReference
  have hunknown : ∀ (s₁ : Reader) (name value : String), Proceeds input s s₁ →
      Decodes input s s.depth
        (.error (.unknownEnumValue name value) : Except ReadError EnumValue) s₁ := by
    intro s₁ name value hproceeds
    refine ⟨hproceeds, fun e he => ?_, fun a ha => ?_⟩
    · cases he
    · cases ha
  unfold Reader.enumeration
  rcases hres : s.enumReference with ⟨err | (name | n), s₁⟩ <;> rw [hres] at hreads
  · exact of_reads hreads |>.failed _
  all_goals
    obtain ⟨htoken, hdepth⟩ := hreads.leaves _ rfl
    dsimp only
    split
    · exact .ok hreads.proceeds htoken hdepth
    · exact hunknown _ _ _ hreads.proceeds

end Decodes

/-- The read of a call moves the cursor forward, as a value or as what is left of a container. -/
def Call.Decodes (schema : Schema) (input : List UInt8) : Call → Prop
  | datum kind st => st.reader.Within input →
    ProtoJson.Decodes input st.reader st.reader.depth (schema.readDatum kind st).1
      (schema.readDatum kind st).2.reader
  | message index m st => st.reader.Within input →
    ProtoJson.Decodes input st.reader st.reader.depth (schema.readMessage index m st).1
      (schema.readMessage index m st).2.2.reader
  | fields index m st => st.reader.Within input →
    ProtoJson.Decodes input st.reader (st.reader.depth - 1) (schema.readFields index m st).1
      (schema.readFields index m st).2.2.reader
  | .slot index target m st => st.reader.Within input →
    ProtoJson.Decodes input st.reader st.reader.depth (schema.readSlot index target m st).1
      (schema.readSlot index target m st).2.2.reader
  | elements kind before st => st.reader.Within input →
    ProtoJson.Decodes input st.reader (st.reader.depth - 1) (schema.readElements kind before st).1
      (schema.readElements kind before st).2.reader
  | entries keyKind kind before st => st.reader.Within input →
    ProtoJson.Decodes input st.reader (st.reader.depth - 1)
      (schema.readEntries keyKind kind before st).1
      (schema.readEntries keyKind kind before st).2.reader

namespace Schema

variable {schema : Schema} {st : Session}

/-- What is read is put into the message, whatever that does to the pools. -/
theorem decodes_store {α : Type} {res : Except ReadError α × Session} (m : Message)
    (put : α → Pools → Message × Pools) (h : Decodes input s d res.1 res.2.reader) :
    Decodes input s d (store m put res).1 (store m put res).2.2.reader := by
  obtain ⟨e | a, st₁⟩ := res
  · exact h.failed d
  · exact h.map fun _ => ()

/-- A container opens with its bracket and is closed by what is read behind that. -/
theorem decodes_container {b : UInt8} (hb : b = ascii '{' ∨ b = ascii '[')
    (h : s.Within input)
    (herror : ∀ e s₁, s.symbol b = (.error e, s₁) → res = .error (.malformed e) ∧ s' = s₁)
    (hok : ∀ s₁, s.symbol b = (.ok (), s₁) → s₁.Within input →
      Decodes input s₁ (s₁.depth - 1) res s') :
    Decodes input s s.depth res s' := by
  have hsymbol := h.symbol b
  rw [depthAfter_opener hb] at hsymbol
  rcases hres : s.symbol b with ⟨e | u, s₁⟩ <;> rw [hres] at hsymbol
  · obtain ⟨rfl, rfl⟩ := herror e s₁ hres
    exact (Decodes.of_reads hsymbol).failed _
  · obtain ⟨-, hdepth⟩ : s₁.token = none ∧ s₁.depth = s.depth + 1 := hsymbol.leaves u rfl
    have hdec := hok s₁ hres hsymbol.proceeds.within
    rw [hdepth, Nat.add_sub_cancel] at hdec
    exact hdec.after hsymbol.proceeds

theorem readDatum_decodes (kind : Kind)
    (hin : ∀ c', Call.Makes schema (.datum kind st) c' → c'.Decodes schema input)
    (h : st.reader.Within input) :
    Decodes input st.reader st.reader.depth (schema.readDatum kind st).1
      (schema.readDatum kind st).2.reader := by
  cases kind with
  | bool =>
    rw [readDatum_bool]
    exact .take _ h.bool
  | integer k =>
    rw [readDatum_integer]
    exact .take _ (h.integer k)
  | float32 =>
    rw [readDatum_float32]
    exact .take _ (h.binary .single)
  | float64 =>
    rw [readDatum_float64]
    exact .take _ (h.binary .double)
  | string =>
    rw [readDatum_string]
    exact .take _ h.string
  | bytes =>
    rw [readDatum_bytes]
    exact .take _ h.bytes
  | enumeration i =>
    rw [readDatum_enumeration]
    exact (Decodes.enumeration h (schema.enumType i)).map _
  | message i =>
    have hdec := hin _ .message h
    rw [readDatum_message]
    dsimp only
    generalize schema.readMessage i _ _ = r at hdec ⊢
    obtain ⟨e | u, m, st₁⟩ := r
    · exact hdec.failed _
    · exact hdec.map fun _ => Datum.message m

theorem readMessage_decodes (index : Nat) (m : Message)
    (hin : ∀ c', Call.Makes schema (.message index m st) c' → c'.Decodes schema input)
    (h : st.reader.Within input) :
    Decodes input st.reader st.reader.depth (schema.readMessage index m st).1
      (schema.readMessage index m st).2.2.reader := by
  apply decodes_container (.inl rfl) h
  · intro e s₁ hs
    rw [readMessage_eq, hs]
    exact ⟨rfl, rfl⟩
  · intro s₁ hs hwithin
    rw [readMessage_eq, hs]
    exact hin _ (.fields hs) hwithin

theorem readFields_decodes (index : Nat) (m : Message)
    (hin : ∀ c', Call.Makes schema (.fields index m st) c' → c'.Decodes schema input)
    (h : st.reader.Within input) :
    Decodes input st.reader (st.reader.depth - 1) (schema.readFields index m st).1
      (schema.readFields index m st).2.2.reader := by
  rw [readFields_eq]
  cases hat : st.reader.atSymbol (ascii '}') with
  | true => exact .of_reads (h.close (.inl rfl) ())
  | false =>
    have hstring := h.string
    rw [if_neg (by simp)]
    rcases hkey : st.reader.string with ⟨e | key, s⟩ <;> rw [hkey] at hstring
    · exact (Decodes.of_reads hstring).failed _
    · obtain ⟨-, hdepth⟩ : s.token = none ∧ s.depth = st.reader.depth := hstring.leaves key rfl
      have hcolon : Proceeds input st.reader s.colon :=
        hstring.proceeds.trans (hstring.proceeds.within.separate _)
      dsimp only
      cases hslot : (schema.messageType index).slot? key with
      | none =>
        have hskips := hcolon.within.value
        have hcomma : Proceeds input st.reader s.colon.skipValue.comma :=
          (hcolon.trans hskips.toProceeds).trans (hskips.within.separate _)
        have hrest := hin _ (.passed hat hkey hslot) hcomma.within
        have hdepth' : s.colon.skipValue.comma.depth = st.reader.depth := hskips.depth.trans hdepth
        rw [Session.reader_moveTo, hdepth'] at hrest
        exact hrest.after hcomma
      | some target =>
        have hread := hin _ (.slot hat hkey hslot) hcolon.within
        dsimp only
        rcases hres : schema.readSlot index target m (st.moveTo s.colon) with ⟨e | u, m', st₁⟩
        · rw [hres] at hread
          exact (hread.after hcolon).failed _
        · rw [hres] at hread
          obtain ⟨-, hdepth₁⟩ : st₁.reader.token = none ∧ st₁.reader.depth = s.depth :=
            hread.leaves u rfl
          have hcomma : Proceeds input st.reader st₁.reader.comma :=
            (hcolon.trans hread.proceeds).trans (hread.proceeds.within.separate _)
          have hrest := hin _ (.next hat hkey hslot hres) hcomma.within
          rw [Session.reader_moveTo, depth_comma, hdepth₁, hdepth] at hrest
          exact hrest.after hcomma

theorem readSlot_decodes (index : Nat) (target : Slot) (m : Message)
    (hin : ∀ c', Call.Makes schema (.slot index target m st) c' → c'.Decodes schema input)
    (h : st.reader.Within input) :
    Decodes input st.reader st.reader.depth (schema.readSlot index target m st).1
      (schema.readSlot index target m st).2.2.reader := by
  cases target with
  | member j k f =>
    rw [readSlot_member_eq]
    exact decodes_store m _ (hin _ .member h)
  | plain i f =>
    cases hf : f.cardinality with
    | singular =>
      rw [readSlot_singular_eq index i f hf]
      exact decodes_store m _ (hin _ (.singular hf) h)
    | list =>
      rw [readSlot_list_eq index i f hf]
      apply decodes_store
      apply decodes_container (.inr rfl) h
      · intro e s₁ hs
        rw [readList, hs]
        exact ⟨rfl, rfl⟩
      · intro s₁ hs hwithin
        rw [readList, hs]
        exact hin _ (.list hf hs) hwithin
    | map keyKind =>
      rw [readSlot_map_eq index i f keyKind hf]
      apply decodes_store
      apply decodes_container (.inl rfl) h
      · intro e s₁ hs
        rw [readMap, hs]
        exact ⟨rfl, rfl⟩
      · intro s₁ hs hwithin
        rw [readMap, hs]
        exact hin _ (.map hf hs) hwithin

theorem readElements_decodes (kind : Kind) (before : List Datum)
    (hin : ∀ c', Call.Makes schema (.elements kind before st) c' → c'.Decodes schema input)
    (h : st.reader.Within input) :
    Decodes input st.reader (st.reader.depth - 1) (schema.readElements kind before st).1
      (schema.readElements kind before st).2.reader := by
  rw [readElements_eq]
  cases hat : st.reader.atSymbol (ascii ']') with
  | true => exact .of_reads (h.close (.inr rfl) before.reverse)
  | false =>
    have hread := hin _ (.element hat) h
    rw [if_neg (by simp)]
    rcases hres : schema.readDatum kind st with ⟨e | a, st₁⟩
    · rw [hres] at hread
      exact hread.failed _
    · rw [hres] at hread
      obtain ⟨-, hdepth⟩ : st₁.reader.token = none ∧ st₁.reader.depth = st.reader.depth :=
        hread.leaves a rfl
      have hcomma : Proceeds input st.reader st₁.reader.comma :=
        hread.proceeds.trans (hread.proceeds.within.separate _)
      have hrest := hin _ (.elements hat hres) hcomma.within
      rw [Session.reader_moveTo, depth_comma, hdepth] at hrest
      exact hrest.after hcomma

theorem readEntries_decodes (keyKind : KeyKind) (kind : Kind) (before : List (MapKey × Datum))
    (hin : ∀ c', Call.Makes schema (.entries keyKind kind before st) c' → c'.Decodes schema input)
    (h : st.reader.Within input) :
    Decodes input st.reader (st.reader.depth - 1) (schema.readEntries keyKind kind before st).1
      (schema.readEntries keyKind kind before st).2.reader := by
  rw [readEntries_eq]
  cases hat : st.reader.atSymbol (ascii '}') with
  | true => exact .of_reads (h.close (.inl rfl) before)
  | false =>
    have hstring := h.mapKey keyKind
    rw [if_neg (by simp)]
    rcases hkey : st.reader.mapKey keyKind with ⟨e | key, s⟩ <;> rw [hkey] at hstring
    · exact (Decodes.of_reads hstring).failed _
    · obtain ⟨-, hdepth⟩ : s.token = none ∧ s.depth = st.reader.depth := hstring.leaves key rfl
      have hcolon : Proceeds input st.reader s.colon :=
        hstring.proceeds.trans (hstring.proceeds.within.separate _)
      have hread := hin _ (.entry hat hkey) hcolon.within
      dsimp only
      rcases hres : schema.readDatum kind (st.moveTo s.colon) with ⟨e | a, st₁⟩
      · rw [hres] at hread
        exact (hread.after hcolon).failed _
      · rw [hres] at hread
        obtain ⟨-, hdepth₁⟩ : st₁.reader.token = none ∧ st₁.reader.depth = s.depth :=
          hread.leaves a rfl
        have hcomma : Proceeds input st.reader st₁.reader.comma :=
          (hcolon.trans hread.proceeds).trans (hread.proceeds.within.separate _)
        have hrest := hin _ (.entries hat hkey hres) hcomma.within
        rw [depth_comma, hdepth₁, hdepth] at hrest
        exact hrest.after hcomma

end Schema

/-- Every read that decoding consists of is in order. -/
theorem Call.decodes (schema : Schema) (input : List UInt8) (c : Call) :
    c.Decodes schema input := by
  induction c using Call.induction schema with
  | h c hin =>
    cases c with
    | datum kind st => exact Schema.readDatum_decodes kind hin
    | message index m st => exact Schema.readMessage_decodes index m hin
    | fields index m st => exact Schema.readFields_decodes index m hin
    | slot index target m st => exact Schema.readSlot_decodes index target m hin
    | elements kind before st => exact Schema.readElements_decodes kind before hin
    | entries keyKind kind before st => exact Schema.readEntries_decodes keyKind kind before hin

/-! ## Reads that succeed -/

theorem Decodes.arrives {a : α} (h : Decodes input s d (.ok a : Except ReadError α) s') :
    Arrives input s d s' := by
  obtain ⟨htoken, hdepth⟩ := h.leaves a rfl
  exact ⟨h.proceeds, htoken, hdepth⟩

namespace Schema

variable {schema : Schema} {st st' : Session}

theorem readDatum_arrives {kind : Kind} {a : Datum} (h : st.reader.Within input)
    (hres : schema.readDatum kind st = (.ok a, st')) :
    Arrives input st.reader st.reader.depth st'.reader := by
  have hdec : Decodes input st.reader _ _ _ := Call.decodes schema input (.datum kind st) h
  rw [hres] at hdec
  exact hdec.arrives

theorem readMessage_arrives {index : Nat} {m m' : Message} (h : st.reader.Within input)
    (hres : schema.readMessage index m st = (.ok (), m', st')) :
    Arrives input st.reader st.reader.depth st'.reader := by
  have hdec : Decodes input st.reader _ _ _ := Call.decodes schema input (.message index m st) h
  rw [hres] at hdec
  exact hdec.arrives

theorem readFields_arrives {index : Nat} {m m' : Message} (h : st.reader.Within input)
    (hres : schema.readFields index m st = (.ok (), m', st')) :
    Arrives input st.reader (st.reader.depth - 1) st'.reader := by
  have hdec : Decodes input st.reader _ _ _ := Call.decodes schema input (.fields index m st) h
  rw [hres] at hdec
  exact hdec.arrives

theorem readSlot_arrives {index : Nat} {target : Slot} {m m' : Message}
    (h : st.reader.Within input) (hres : schema.readSlot index target m st = (.ok (), m', st')) :
    Arrives input st.reader st.reader.depth st'.reader := by
  have hdec : Decodes input st.reader _ _ _ :=
    Call.decodes schema input (.slot index target m st) h
  rw [hres] at hdec
  exact hdec.arrives

theorem readElements_arrives {kind : Kind} {before ds : List Datum} (h : st.reader.Within input)
    (hres : schema.readElements kind before st = (.ok ds, st')) :
    Arrives input st.reader (st.reader.depth - 1) st'.reader := by
  have hdec : Decodes input st.reader _ _ _ :=
    Call.decodes schema input (.elements kind before st) h
  rw [hres] at hdec
  exact hdec.arrives

theorem readEntries_arrives {keyKind : KeyKind} {kind : Kind} {before es : List (MapKey × Datum)}
    (h : st.reader.Within input)
    (hres : schema.readEntries keyKind kind before st = (.ok es, st')) :
    Arrives input st.reader (st.reader.depth - 1) st'.reader := by
  have hdec : Decodes input st.reader _ _ _ :=
    Call.decodes schema input (.entries keyKind kind before st) h
  rw [hres] at hdec
  exact hdec.arrives

end Schema

end

/-! ## Calls in sequence -/

namespace Reader

/-- A call of a reader, with what it is called with. Questions to the reader are calls too. -/
inductive Operation where
  | separate (separator : UInt8)
  | atSymbol (byte : UInt8)
  | symbol (byte : UInt8)
  | null
  | bool
  | string
  | bytes
  | integer (kind : IntegerKind)
  | binary (format : BinaryFormat)
  | enumReference
  | enumeration (e : EnumType)
  | mapKey (kind : KeyKind)
  | value
  | skipValue
  | message (schema : Schema) (index : Nat) (m : Message) (ps : Pools)

/-- Whether the call succeeds, or how it fails, and the reader after it. -/
def Operation.perform (op : Operation) (s : Reader) : Except ReadError Unit × Reader :=
  match op with
  | separate separator => (.ok (), s.separate separator)
  | atSymbol _ => (.ok (), s)
  | symbol byte => outcome (s.symbol byte)
  | null => outcome s.null
  | bool => outcome s.bool
  | string => outcome s.string
  | bytes => outcome s.bytes
  | integer kind => outcome (s.integer kind)
  | binary format => outcome (s.binary format)
  | enumReference => outcome s.enumReference
  | enumeration e => ((s.enumeration e).1.map fun _ => (), (s.enumeration e).2)
  | mapKey kind => outcome (s.mapKey kind)
  | value => (.ok (), s.value.2)
  | skipValue => (.ok (), s.skipValue)
  | message schema index m ps =>
    ((schema.readMessage index m ⟨ps, s⟩).1, (schema.readMessage index m ⟨ps, s⟩).2.2.reader)
where
  /-- Whether a read succeeds, or how it fails. -/
  outcome {α : Type} (r : Except SyntaxError α × Reader) : Except ReadError Unit × Reader :=
    ((r.1.mapError .malformed).map fun _ => (), r.2)

/-- The reader after calls in sequence. A call that fails is followed by the next one. -/
def run (s : Reader) (ops : List Operation) : Reader := ops.foldl (fun s op => (op.perform s).2) s

/-- What a call does to a reader of `input`: the cursor moves forward within the input, where the
token that is kept lies in front of it, no more containers than may be are open, and a syntax error
stands at or before the cursor. A value of any shape, and a message that is decoded, leave as many
containers open as they have found. -/
structure Operation.Keeps (input : List UInt8) (op : Operation) (s : Reader) : Prop where
  proceeds : Proceeds input s (op.perform s).2
  located : ∀ e, (op.perform s).1 = .error (.malformed e) → e.offset ≤ (op.perform s).2.offset
  value : op = .value ∨ op = .skipValue → (op.perform s).2.depth = s.depth
  message : ∀ schema index m ps, op = .message schema index m ps →
    (op.perform s).1 = .ok () → (op.perform s).2.depth = s.depth

variable {input : List UInt8} {s : Reader}

/-- A read that is neither of a message nor of a value of any shape. -/
theorem Operation.keeps_of_decodes {op : Operation} {d : Nat}
    (h : Decodes input s d (op.perform s).1 (op.perform s).2)
    (hvalue : op = .value ∨ op = .skipValue → (op.perform s).2.depth = s.depth)
    (hmessage : (∃ schema index m ps, op = .message schema index m ps) → d = s.depth) :
    op.Keeps input s where
  proceeds := h.proceeds
  located := h.located
  value := hvalue
  message schema index m ps hop hok :=
    (h.leaves () hok).2.trans (hmessage ⟨schema, index, m, ps, hop⟩)

/-- A call that cannot fail and leaves as many containers open. -/
theorem Operation.keeps_of_proceeds {op : Operation} (h : Proceeds input s (op.perform s).2)
    (hres : (op.perform s).1 = .ok ()) (hdepth : (op.perform s).2.depth = s.depth) :
    op.Keeps input s := by
  refine ⟨h, fun e he => ?_, fun _ => hdepth, fun _ _ _ _ _ _ => hdepth⟩
  rw [hres] at he
  cases he

/-- Every call keeps the reader within its input. -/
theorem Operation.keeps (op : Operation) (h : s.Within input) : op.Keeps input s := by
  have hread : ∀ {d : Nat} {α : Type} {r : Except SyntaxError α × Reader}, Reads input s d r →
      Decodes input s d (perform.outcome r).1 (perform.outcome r).2 :=
    fun hreads => (Decodes.of_reads hreads).map _
  cases op with
  | separate separator => exact keeps_of_proceeds (h.separate separator) rfl rfl
  | atSymbol byte => exact keeps_of_proceeds h.refl rfl rfl
  | symbol byte => exact keeps_of_decodes (hread (h.symbol byte)) (by simp) (by simp)
  | null => exact keeps_of_decodes (hread h.null) (by simp) (by simp)
  | bool => exact keeps_of_decodes (hread h.bool) (by simp) (by simp)
  | string => exact keeps_of_decodes (hread h.string) (by simp) (by simp)
  | bytes => exact keeps_of_decodes (hread h.bytes) (by simp) (by simp)
  | integer kind => exact keeps_of_decodes (hread (h.integer kind)) (by simp) (by simp)
  | binary format => exact keeps_of_decodes (hread (h.binary format)) (by simp) (by simp)
  | enumReference => exact keeps_of_decodes (hread h.enumReference) (by simp) (by simp)
  | enumeration e =>
    exact keeps_of_decodes ((Decodes.enumeration h e).map _) (by simp) (by simp)
  | mapKey kind => exact keeps_of_decodes (hread (h.mapKey kind)) (by simp) (by simp)
  | value => exact keeps_of_proceeds h.value.toProceeds rfl h.value.depth
  | skipValue => exact keeps_of_proceeds h.value.toProceeds rfl h.value.depth
  | message schema index m ps =>
    exact keeps_of_decodes (Call.decodes schema input (.message index m ⟨ps, s⟩) h) (by simp)
      fun _ => rfl

/-- Calls in sequence keep the reader within its input. -/
theorem Within.run (h : s.Within input) (ops : List Operation) : (s.run ops).Within input := by
  unfold Reader.run
  induction ops generalizing s with
  | nil => exact h
  | cons op ops ih => exact ih (op.keeps h).proceeds.within

/-- After any calls of a reader, whether they have failed or not, the reader stands within its
input, and so it does after any next call, which has moved the cursor forward, has reported an error
no further than the cursor, and has closed what it has opened if it has passed a value of any shape
or decoded a message. -/
theorem within_run_and_keeps (input : List UInt8) (options : ReadOptions)
    (before : List Operation) (op : Operation) :
    ((ofBytes input options).run before).Within input ∧
      op.Keeps input ((ofBytes input options).run before) := by
  have hrun : ((ofBytes input options).run before).Within input :=
    (within_ofBytes input options).run before
  exact ⟨hrun, op.keeps hrun⟩

end Reader

end ProtoJson
