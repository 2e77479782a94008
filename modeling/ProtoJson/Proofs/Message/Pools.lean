import ProtoJson.Message.Codec
import ProtoJson.Proofs.Message.Calls
import ProtoJson.Proofs.Message.PoolLog

/-!
# Pools over many runs

Every message that waits in a pool has no field set, so a message that is taken from the pools is a
new one. Decoding keeps this on any input and for any outcome, and it keeps messages in their types.
-/

namespace ProtoJson

variable {schema : Schema}

/-! ## Clean pools -/

/-- Pools in which every message waits with no field set. -/
def Pools.Clean (schema : Schema) (ps : Pools) : Prop :=
  ∀ (i : Nat) (p : Pool Message), ps.pools[i]? = some p → ∀ m ∈ p.idle, m = schema.emptyMessage i

namespace Pools

variable {ps : Pools}

/-- No message waits in new pools. -/
theorem idle_ofSchema (schema : Schema) : ∀ p ∈ (ofSchema schema).pools, p.idle = [] := by
  intro p hp
  obtain ⟨-, -, rfl⟩ := List.mem_map.1 hp
  rfl

theorem clean_of_idle (h : ∀ p ∈ ps.pools, p.idle = []) : ps.Clean schema := by
  intro i p hp m hm
  rw [h p (List.mem_of_getElem? hp)] at hm
  cases hm

/-- A message from clean pools is a new one. -/
theorem Clean.acquire (h : ps.Clean schema) (index : Nat) :
    (ps.acquire schema index).1 = schema.emptyMessage index ∧
      (ps.acquire schema index).2.Clean schema := by
  unfold Pools.acquire
  cases hp : ps.pools[index]? with
  | none => exact ⟨rfl, h⟩
  | some p =>
    dsimp only
    unfold Pool.acquire
    cases hidle : p.idle with
    | nil =>
      refine ⟨rfl, fun i q hq m hm => ?_⟩
      rcases getElem?_set_cases hq with ⟨rfl, rfl⟩ | hold
      · exact h i q hp m hm
      · exact h i q hold m hm
    | cons a rest =>
      have hrest : ∀ m ∈ a :: rest, m = schema.emptyMessage index := by
        rw [← hidle]
        exact h index p hp
      refine ⟨hrest a List.mem_cons_self, fun i q hq m hm => ?_⟩
      rcases getElem?_set_cases hq with ⟨rfl, rfl⟩ | hold
      · exact hrest m (List.mem_cons_of_mem a hm)
      · exact h i q hold m hm

theorem Clean.release (h : ps.Clean schema) (index : Nat) :
    (ps.release index (schema.emptyMessage index)).Clean schema := by
  intro i q hq m hm
  rw [Pools.release, List.getElem?_modify] at hq
  obtain ⟨p, hp, rfl⟩ := Option.map_eq_some_iff.1 hq
  by_cases hi : index = i
  · subst hi
    rw [if_pos rfl, Pool.release] at hm
    split at hm
    · rcases List.mem_append.1 hm with hm | hm
      · exact h index p hp m hm
      · exact List.mem_singleton.1 hm
    · exact h index p hp m hm
  · rw [if_neg hi] at hm
    exact h i p hp m hm

/-- Messages that are returned have no field set, so the pools stay clean over a log. -/
theorem Clean.replay (h : ps.Clean schema) (log : List PoolEvent) :
    (ps.replay schema log).Clean schema := by
  induction log generalizing ps with
  | nil => exact h
  | cons e log ih =>
    cases e with
    | taken i => exact ih (h.acquire i).2
    | returned i => exact ih (h.release i)

end Pools

/-! ## Recycling -/

/-- What a field holds is returned with no field set. -/
theorem Content.recycle_clean (f : Field) (c : Content) (ps : Pools) (hc : c.OfField schema f)
    (h : ps.Clean schema) : (c.recycle schema f.kind ps).Clean schema := by
  rw [Content.recycle_eq_replay f c ps hc]
  exact h.replay _

theorem Choice.recycle_clean (type : MessageType) (index : Nat) (c : Choice) (ps : Pools)
    (hc : c.OfMembers schema (type.members index)) (h : ps.Clean schema) :
    (c.recycle schema type index ps).Clean schema := by
  rw [Choice.recycle_eq_replay type index c ps hc]
  exact h.replay _

theorem Message.recycle_clean (index : Nat) (m : Message) (ps : Pools)
    (hm : m.OfType schema index) (h : ps.Clean schema) :
    (m.recycle schema index ps).Clean schema := by
  rw [Message.recycle_eq_replay index m ps hm]
  exact h.replay _

section Insertion

variable {kind : Kind} {es : List (MapKey × Datum)}

theorem insertEntry_ofKind (key : MapKey) {d : Datum} (hd : d.OfKind schema kind)
    (hes : ∀ e ∈ es, e.2.OfKind schema kind) :
    ∀ e ∈ (insertEntry key d es).1, e.2.OfKind schema kind := by
  intro e he
  rcases mem_insertEntry he with rfl | he
  · exact hd
  · exact hes e he

theorem replaced_ofKind (key : MapKey) (d : Datum) (hes : ∀ e ∈ es, e.2.OfKind schema kind) :
    ∀ old, (insertEntry key d es).2 = some old → old.OfKind schema kind := by
  intro old hold
  obtain ⟨k, hk⟩ := mem_of_insertEntry hold
  exact hes _ hk

end Insertion

theorem recycleReplaced_clean {kind : Kind} {old : Option Datum} {ps : Pools}
    (hold : ∀ d, old = some d → d.OfKind schema kind) (h : ps.Clean schema) :
    (recycleReplaced schema kind old ps).Clean schema := by
  rw [recycleReplaced_eq_replay ps hold]
  exact h.replay _

/-! ## Assignments -/

theorem Message.assign_sound {index i : Nat} {m : Message} {f : Field} {c : Content} {ps : Pools}
    (hm : m.OfType schema index) (hf : (schema.messageType index).plainFields[i]? = some f)
    (hc : c.OfField schema f) (h : ps.Clean schema) :
    (m.assign schema i f.kind c ps).1.OfType schema index ∧
      (m.assign schema i f.kind c ps).2.Clean schema := by
  refine ⟨Message.setPlain_ofType hm hf hc, ?_⟩
  show ((m.plain[i]?.getD .absent).recycle schema f.kind ps).Clean schema
  cases hold : m.plain[i]? with
  | none => exact h
  | some old => exact Content.recycle_clean f old ps (Message.plain_ofField hm hf hold) h

theorem Message.choose_sound {index j k : Nat} {m : Message} {f : Field} {d : Datum} {ps : Pools}
    (hm : m.OfType schema index) (hf : ((schema.messageType index).members j)[k]? = some f)
    (hd : d.OfKind schema f.kind) (h : ps.Clean schema) :
    (m.choose schema (schema.messageType index) j k d ps).1.OfType schema index ∧
      (m.choose schema (schema.messageType index) j k d ps).2.Clean schema := by
  refine ⟨Message.setChoice_ofType hm ⟨f, hf, hd⟩, ?_⟩
  show ((m.choices[j]?.getD .unset).recycle schema (schema.messageType index) j ps).Clean schema
  cases hold : m.choices[j]? with
  | none => exact h
  | some old => exact Choice.recycle_clean _ j old ps (Message.choice_ofMembers hm hold) h

/-! ## Values that a reader gives -/

namespace Reader

variable {s s' : Reader}

/-- A read that goes on with the token taken gives what it makes of that token. -/
theorem of_andThen {α β : Type} {r : Except SyntaxError α × Reader} {f : α → Except SyntaxError β}
    {b : β} (h : (andThen r f).1 = .ok b) : ∃ a, r.1 = .ok a ∧ f a = .ok b := by
  cases hr : r.1 with
  | error e =>
    rw [andThen, hr] at h
    cases h
  | ok a =>
    rw [andThen, hr] at h
    exact ⟨a, rfl, h⟩

/-- A container gives what it holds when it is closed. -/
theorem of_close {α : Type} {bracket : UInt8} {content a : α}
    (h : (s.close bracket content).1.mapError ReadError.malformed = .ok a) : a = content := by
  cases hc : (s.close bracket content).1 with
  | error e =>
    rw [hc] at h
    cases h
  | ok b =>
    obtain ⟨_, -, hb⟩ := of_andThen hc
    rw [hc] at h
    cases hb
    cases h
    rfl

theorem integer_holds {kind : IntegerKind} {v : Int} (h : (s.integer kind).1 = .ok v) :
    kind.Holds v := by
  obtain ⟨⟨t, text⟩, -, hv⟩ := of_andThen h
  dsimp only [Token.integer?] at hv
  split at hv
  · next hp =>
    cases hv
    exact IntegerKind.holds_of_parse? hp
  · cases hv

theorem mapKey_ofKind {kind : KeyKind} {key : MapKey} (h : (s.mapKey kind).1 = .ok key) :
    key.OfKind kind := by
  obtain ⟨⟨t, raw, escaped⟩, -, hkey⟩ := of_andThen h
  dsimp only at hkey
  cases ht : t.text? s.options raw escaped with
  | error e =>
    rw [ht] at hkey
    cases hkey
  | ok text =>
    rw [ht, Except.bind] at hkey
    split at hkey
    · next hp =>
      cases hkey
      exact MapKey.parse?_ofKind hp
    · cases hkey

theorem enumeration_holds {e : EnumType} {v : EnumValue} (h : (s.enumeration e).1 = .ok v) :
    e.Holds v.number := by
  have hnumber : ∀ n, e.ofNumber? n = some v → e.Holds v.number := by
    intro n hn
    have hv := List.find?_some (p := fun w : EnumValue => w.number == n) hn
    rw [eq_of_beq hv]
    exact .inl (by rw [hn]; rfl)
  unfold enumeration at h
  split at h
  · cases h
  · split at h
    · next hn =>
      cases h
      obtain ⟨w, -, hw⟩ := Option.bind_eq_some_iff.1 hn
      exact hnumber _ hw
    · cases h
  · split at h
    · next hn =>
      cases h
      exact hnumber _ hn
    · cases h

end Reader

/-! ## Runs -/

namespace Schema

variable {st : Session}

/-- A read that leaves the pools clean and gives what has a property. -/
def Sound (schema : Schema) {α : Type} (p : α → Prop) (r : Except ReadError α × Session) : Prop :=
  (∀ a, r.1 = .ok a → p a) ∧ r.2.pools.Clean schema

/-- A read that leaves the pools clean and the message in its type, whether it fails or not. -/
def SoundMessage (schema : Schema) (index : Nat) (r : Except ReadError Unit × Message × Session) :
    Prop :=
  r.2.1.OfType schema index ∧ r.2.2.pools.Clean schema

theorem Sound.error {α : Type} {p : α → Prop} (e : ReadError) (h : st.pools.Clean schema) :
    Sound schema p (.error e, st) := by
  refine ⟨fun a ha => ?_, h⟩
  cases ha

/-- The reader alone does not touch the pools. -/
theorem take_sound {α : Type} {p : Datum → Prop} {r : Except SyntaxError α × Reader}
    {f : α → Datum} (h : st.pools.Clean schema) (hf : ∀ a, r.1 = .ok a → p (f a)) :
    Sound schema p (st.take r f) := by
  refine ⟨fun d hd => ?_, h⟩
  cases hr : r.1 with
  | error e =>
    rw [Session.take, hr] at hd
    cases hd
  | ok a =>
    rw [Session.take, hr] at hd
    cases hd
    exact hf a hr

/-- A slot takes up what is read. -/
theorem store_sound {α : Type} {p : α → Prop} {index : Nat} {m : Message}
    {put : α → Pools → Message × Pools} {r : Except ReadError α × Session}
    (hm : m.OfType schema index) (h : Sound schema p r)
    (hput : ∀ a ps, p a → ps.Clean schema →
      (put a ps).1.OfType schema index ∧ (put a ps).2.Clean schema) :
    SoundMessage schema index (store m put r) := by
  obtain ⟨e | a, st'⟩ := r
  · exact ⟨hm, h.2⟩
  · exact hput a st'.pools (h.1 a rfl) h.2

end Schema

/-- The read of a call leaves the pools clean, and what it gives is of its kind. -/
def Call.Sound (schema : Schema) : Call → Prop
  | datum kind st => st.pools.Clean schema →
    Schema.Sound schema (·.OfKind schema kind) (schema.readDatum kind st)
  | message index m st => m.OfType schema index → st.pools.Clean schema →
    Schema.SoundMessage schema index (schema.readMessage index m st)
  | fields index m st => m.OfType schema index → st.pools.Clean schema →
    Schema.SoundMessage schema index (schema.readFields index m st)
  | .slot index target m st => target.IsOf (schema.messageType index) → m.OfType schema index →
    st.pools.Clean schema → Schema.SoundMessage schema index (schema.readSlot index target m st)
  | elements kind before st => (∀ d ∈ before, d.OfKind schema kind) → st.pools.Clean schema →
    Schema.Sound schema (fun ds => ∀ d ∈ ds, d.OfKind schema kind)
      (schema.readElements kind before st)
  | entries keyKind kind before st => (∀ e ∈ before, e.1.OfKind keyKind ∧ e.2.OfKind schema kind) →
    Ascending before → st.pools.Clean schema →
    Schema.Sound schema
      (fun es => (∀ e ∈ es, e.1.OfKind keyKind ∧ e.2.OfKind schema kind) ∧ Ascending es)
      (schema.readEntries keyKind kind before st)

namespace Schema

variable {st : Session}

theorem readDatum_sound (kind : Kind)
    (hin : ∀ c', Call.Makes schema (.datum kind st) c' → c'.Sound schema)
    (h : st.pools.Clean schema) :
    Sound schema (·.OfKind schema kind) (schema.readDatum kind st) := by
  cases kind with
  | bool => exact readDatum_bool schema st ▸ take_sound h fun _ _ => rfl
  | integer k =>
    rw [readDatum_integer]
    exact take_sound h fun v hv => ⟨k, rfl, Reader.integer_holds hv⟩
  | float32 => exact readDatum_float32 schema st ▸ take_sound h fun _ _ => rfl
  | float64 => exact readDatum_float64 schema st ▸ take_sound h fun _ _ => rfl
  | string => exact readDatum_string schema st ▸ take_sound h fun _ _ => rfl
  | bytes => exact readDatum_bytes schema st ▸ take_sound h fun _ _ => rfl
  | enumeration i =>
    rw [readDatum_enumeration]
    refine ⟨fun d hd => ?_, h⟩
    dsimp only at hd
    cases hr : (st.reader.enumeration (schema.enumType i)).1 with
    | error e =>
      rw [hr] at hd
      cases hd
    | ok v =>
      rw [hr] at hd
      cases hd
      exact ⟨i, rfl, Reader.enumeration_holds hr⟩
  | message i =>
    -- The pools are clean, so the message that is taken is an empty one of the type.
    obtain ⟨hm, hps⟩ := h.acquire i
    have hread := hin _ .message (hm ▸ emptyMessage_ofType i) hps
    rw [readDatum_message]
    dsimp only
    rcases hr : schema.readMessage i _ _ with ⟨e | u, m, st₁⟩ <;> rw [hr] at hread
    · exact .error _ hread.2
    · refine ⟨fun d hd => ?_, hread.2⟩
      cases hd
      exact ⟨i, rfl, hread.1⟩

theorem readMessage_sound (index : Nat) (m : Message)
    (hin : ∀ c', Call.Makes schema (.message index m st) c' → c'.Sound schema)
    (hm : m.OfType schema index) (h : st.pools.Clean schema) :
    SoundMessage schema index (schema.readMessage index m st) := by
  rw [readMessage_eq]
  rcases hs : st.reader.symbol (ascii '{') with ⟨e | u, s⟩
  · exact ⟨hm, h⟩
  · exact hin _ (.fields hs) hm h

theorem readFields_sound (index : Nat) (m : Message)
    (hin : ∀ c', Call.Makes schema (.fields index m st) c' → c'.Sound schema)
    (hm : m.OfType schema index) (h : st.pools.Clean schema) :
    SoundMessage schema index (schema.readFields index m st) := by
  rw [readFields_eq]
  cases hat : st.reader.atSymbol (ascii '}') with
  | true => exact ⟨hm, h⟩
  | false =>
    rw [if_neg (by simp)]
    rcases hkey : st.reader.string with ⟨e | key, s⟩
    · exact ⟨hm, h⟩
    · dsimp only
      cases hslot : (schema.messageType index).slot? key with
      | none => exact hin _ (.passed hat hkey hslot) hm h
      | some target =>
        have hread := hin _ (.slot hat hkey hslot) (MessageType.slot?_isOf hslot) hm h
        dsimp only
        rcases hr : schema.readSlot index target m (st.moveTo s.colon) with ⟨e | u, m', st₁⟩ <;>
          rw [hr] at hread
        · exact hread
        · exact hin _ (.next hat hkey hslot hr) hread.1 hread.2

theorem readSlot_sound (index : Nat) (target : Slot) (m : Message)
    (hin : ∀ c', Call.Makes schema (.slot index target m st) c' → c'.Sound schema)
    (htarget : target.IsOf (schema.messageType index)) (hm : m.OfType schema index)
    (h : st.pools.Clean schema) :
    SoundMessage schema index (schema.readSlot index target m st) := by
  cases target with
  | member j k f =>
    rw [readSlot_member_eq]
    exact store_sound hm (hin _ .member h) fun d ps hd hps =>
      Message.choose_sound hm htarget hd hps
  | plain i f =>
    cases hf : f.cardinality with
    | singular =>
      rw [readSlot_singular_eq index i f hf]
      exact store_sound hm (hin _ (.singular hf) h) fun d ps hd hps =>
        Message.assign_sound hm htarget ⟨hf, hd⟩ hps
    | list =>
      have hread : Sound schema (fun ds => ∀ d ∈ ds, d.OfKind schema f.kind)
          (schema.readList f.kind st) := by
        rw [readList]
        rcases hs : st.reader.symbol (ascii '[') with ⟨e | u, s⟩
        · exact .error _ h
        · exact hin _ (.list hf hs) (List.forall_mem_nil _) h
      rw [readSlot_list_eq index i f hf]
      exact store_sound hm hread fun ds ps hds hps =>
        Message.assign_sound hm htarget ⟨hf, (elementsOfKind_iff f.kind ds).2 hds⟩ hps
    | map keyKind =>
      have hread : Sound schema
          (fun es => (∀ e ∈ es, e.1.OfKind keyKind ∧ e.2.OfKind schema f.kind) ∧ Ascending es)
          (schema.readMap keyKind f.kind st) := by
        rw [readMap]
        rcases hs : st.reader.symbol (ascii '{') with ⟨e | u, s⟩
        · exact .error _ h
        · exact hin _ (.map hf hs) (List.forall_mem_nil _) List.Pairwise.nil h
      rw [readSlot_map_eq index i f keyKind hf]
      exact store_sound hm hread fun es ps hes hps => Message.assign_sound hm htarget
        ⟨keyKind, hf, (entriesOfKind_iff keyKind f.kind es).2 hes.1, hes.2.nodup⟩ hps

theorem readElements_sound (kind : Kind) (before : List Datum)
    (hin : ∀ c', Call.Makes schema (.elements kind before st) c' → c'.Sound schema)
    (hbefore : ∀ d ∈ before, d.OfKind schema kind) (h : st.pools.Clean schema) :
    Sound schema (fun ds => ∀ d ∈ ds, d.OfKind schema kind)
      (schema.readElements kind before st) := by
  rw [readElements_eq]
  cases hat : st.reader.atSymbol (ascii ']') with
  | true =>
    refine ⟨fun ds hds => ?_, h⟩
    rw [Reader.of_close hds]
    exact fun d hd => hbefore d (List.mem_reverse.1 hd)
  | false =>
    have hread := hin _ (.element hat) h
    rw [if_neg (by simp)]
    rcases hr : schema.readDatum kind st with ⟨e | d, st₁⟩ <;> rw [hr] at hread
    · exact .error _ hread.2
    · exact hin _ (.elements hat hr) (List.forall_mem_cons.2 ⟨hread.1 d rfl, hbefore⟩) hread.2

/-- The entries that are read are in ascending order of their keys. -/
theorem readEntries_sound (keyKind : KeyKind) (kind : Kind) (before : List (MapKey × Datum))
    (hin : ∀ c', Call.Makes schema (.entries keyKind kind before st) c' → c'.Sound schema)
    (hbefore : ∀ e ∈ before, e.1.OfKind keyKind ∧ e.2.OfKind schema kind)
    (hascending : Ascending before) (h : st.pools.Clean schema) :
    Sound schema (fun es => (∀ e ∈ es, e.1.OfKind keyKind ∧ e.2.OfKind schema kind) ∧ Ascending es)
      (schema.readEntries keyKind kind before st) := by
  rw [readEntries_eq]
  cases hat : st.reader.atSymbol (ascii '}') with
  | true =>
    refine ⟨fun es hes => ?_, h⟩
    rw [Reader.of_close hes]
    exact ⟨hbefore, hascending⟩
  | false =>
    rw [if_neg (by simp)]
    rcases hs : st.reader.mapKey keyKind with ⟨e | key, s⟩
    · exact .error _ h
    · have hkey : key.OfKind keyKind := Reader.mapKey_ofKind (by rw [hs])
      have hread := hin _ (.entry hat hs) h
      dsimp only
      rcases hr : schema.readDatum kind (st.moveTo s.colon) with ⟨e | d, st₁⟩ <;> rw [hr] at hread
      · exact .error _ hread.2
      · -- The entries stay in order and of their kinds, and what is replaced goes to the pools.
        apply hin _ (.entries hat hs hr)
        · intro e he
          rcases mem_insertEntry he with rfl | he
          · exact ⟨hkey, hread.1 d rfl⟩
          · exact hbefore e he
        · exact hascending.insertEntry (fun e he => (hbefore e he).1) hkey
        · exact recycleReplaced_clean (replaced_ofKind key d fun e he => (hbefore e he).2) hread.2

end Schema

/-- Every read that decoding consists of leaves the pools clean and gives what is of its kind. -/
theorem Call.sound (schema : Schema) (c : Call) : c.Sound schema := by
  induction c using Call.induction schema with
  | h c hin =>
    cases c with
    | datum kind st => exact Schema.readDatum_sound kind hin
    | message index m st => exact Schema.readMessage_sound index m hin
    | fields index m st => exact Schema.readFields_sound index m hin
    | slot index target m st => exact Schema.readSlot_sound index target m hin
    | elements kind before st => exact Schema.readElements_sound kind before hin
    | entries keyKind kind before st => exact Schema.readEntries_sound keyKind kind before hin

/-- The states that pools can come to, from pools in which no message waits: messages are taken, any
input is decoded into messages, and messages are returned. Encoding does not touch the pools. -/
inductive Pools.Reachable (schema : Schema) : Pools → Prop where
  | start (ps : Pools) (h : ∀ p ∈ ps.pools, p.idle = []) : Reachable schema ps
  | acquire (ps : Pools) (index : Nat) (h : Reachable schema ps) :
    Reachable schema (ps.acquire schema index).2
  | unmarshal (ps : Pools) (index : Nat) (input : List UInt8) (options : ReadOptions) (m : Message)
    (hm : m.OfType schema index) (h : Reachable schema ps) :
    Reachable schema (schema.unmarshal index input options m ps).2.2.pools
  | recycle (ps : Pools) (index : Nat) (m : Message) (hm : m.OfType schema index)
    (h : Reachable schema ps) : Reachable schema (m.recycle schema index ps)

/-- In every state, the messages that wait have no field set. -/
theorem Pools.Reachable.clean {ps : Pools} (h : ps.Reachable schema) : ps.Clean schema := by
  induction h with
  | start ps h => exact clean_of_idle h
  | acquire ps index _ ih => exact (ih.acquire index).2
  | unmarshal ps index input options m hm _ ih =>
    exact (Call.sound schema (.message index m ⟨ps, .ofBytes input options⟩) hm ih).2
  | recycle ps index m hm _ ih => exact Message.recycle_clean index m ps hm ih

end ProtoJson
