import ProtoJson.Proofs.Message.Pools
import ProtoJson.Schema.Example

/-!
# Conservation of messages

The pools after decoding are what a log of the decoder makes of those before, whatever the outcome,
and the log of a success balances what the message holds. So no message is lost, and none is
returned twice.
-/

namespace ProtoJson

variable {schema : Schema}

/-! ## The log of the decoder -/

mutual

/-- What reading a value of a kind does to the pools. -/
def Schema.datumLog (schema : Schema) (kind : Kind) (st : Session) : List PoolEvent :=
  match kind with
  | .message i =>
    let (m, ps) := st.pools.acquire schema i
    .taken i :: schema.messageLog i m { pools := ps, reader := st.reader }
  | _ => []
termination_by 4 * st.remaining + 1
decreasing_by exact Nat.lt_succ_self _

/-- What reading an object into a message does to the pools. -/
def Schema.messageLog (schema : Schema) (index : Nat) (m : Message) (st : Session) :
    List PoolEvent :=
  match h : st.reader.symbol (ascii '{') with
  | (.error _, _) => []
  | (.ok _, s) =>
    have : s.remaining < st.remaining := (Reader.symbol_progress st.reader (ascii '{')).lt h
    schema.fieldsLog index m (st.moveTo s)
termination_by 4 * st.remaining
decreasing_by simp only [Session.remaining_moveTo]; omega

/-- What reading the members of an object does to the pools. A slot that has been read gives back
what it held. -/
def Schema.fieldsLog (schema : Schema) (index : Nat) (m : Message) (st : Session) :
    List PoolEvent :=
  if st.reader.atSymbol (ascii '}') then []
  else
    match h : st.reader.string with
    | (.error _, _) => []
    | (.ok key, s) =>
      have : s.remaining < st.remaining := (Reader.string_progress st.reader).lt h
      match (schema.messageType index).slot? key with
      | none =>
        have : s.colon.skipValue.remaining ≤ s.remaining := (Reader.valueStep s.colon).2.1
        schema.fieldsLog index m (st.moveTo s.colon.skipValue.comma)
      | some slot =>
        schema.slotLog slot (st.moveTo s.colon) ++
          match h' : schema.readSlot index slot m (st.moveTo s.colon) with
          | (.error _, _, _) => []
          | (.ok _, m', st₁) =>
            have : st₁.remaining < s.remaining := Schema.readSlot_lt h'
            returns (slot.types schema index m) ++
              schema.fieldsLog index m' (st₁.moveTo st₁.reader.comma)
termination_by 4 * st.remaining
decreasing_by
  · simp only [Session.remaining_moveTo, Reader.remaining_comma]
    omega
  · simp only [Session.remaining_moveTo, Reader.remaining_colon]
    omega
  · have : (st₁.moveTo st₁.reader.comma).remaining = st₁.remaining := rfl
    omega

/-- What reading the value of a slot does to the pools. -/
def Schema.slotLog (schema : Schema) (slot : Slot) (st : Session) : List PoolEvent :=
  match slot with
  | .member _ _ f => schema.datumLog f.kind st
  | .plain _ f =>
    match f.cardinality with
    | .singular => schema.datumLog f.kind st
    | .list =>
      match h : st.reader.symbol (ascii '[') with
      | (.error _, _) => []
      | (.ok _, s) =>
        have : s.remaining < st.remaining := (Reader.symbol_progress st.reader (ascii '[')).lt h
        schema.elementsLog f.kind (st.moveTo s)
    | .map keyKind =>
      match h : st.reader.symbol (ascii '{') with
      | (.error _, _) => []
      | (.ok _, s) =>
        have : s.remaining < st.remaining := (Reader.symbol_progress st.reader (ascii '{')).lt h
        schema.entriesLog keyKind f.kind [] (st.moveTo s)
termination_by 4 * st.remaining + 2
decreasing_by
  all_goals try simp only [Session.remaining_moveTo]
  all_goals omega

/-- What reading the elements of a list does to the pools. -/
def Schema.elementsLog (schema : Schema) (kind : Kind) (st : Session) : List PoolEvent :=
  if st.reader.atSymbol (ascii ']') then []
  else
    schema.datumLog kind st ++
      match h : schema.readDatum kind st with
      | (.error _, _) => []
      | (.ok _, st₁) =>
        have : st₁.remaining < st.remaining := Schema.readDatum_lt h
        schema.elementsLog kind (st₁.moveTo st₁.reader.comma)
termination_by 4 * st.remaining + 2
decreasing_by
  · omega
  · have : (st₁.moveTo st₁.reader.comma).remaining = st₁.remaining := rfl
    omega

/-- What reading the entries of a map does to the pools. The value that stood for a key before goes
back. -/
def Schema.entriesLog (schema : Schema) (keyKind : KeyKind) (kind : Kind)
    (before : List (MapKey × Datum)) (st : Session) : List PoolEvent :=
  if st.reader.atSymbol (ascii '}') then []
  else
    match h : st.reader.mapKey keyKind with
    | (.error _, _) => []
    | (.ok key, s) =>
      have : s.remaining < st.remaining := (Reader.mapKey_progress st.reader keyKind).lt h
      schema.datumLog kind (st.moveTo s.colon) ++
        match h' : schema.readDatum kind (st.moveTo s.colon) with
        | (.error _, _) => []
        | (.ok d, st₁) =>
          have : st₁.remaining < s.remaining := Schema.readDatum_lt h'
          let (entries, replaced) := insertEntry key d before
          returns ((replaced.map (Datum.types schema kind)).getD []) ++
            schema.entriesLog keyKind kind entries
              { pools := recycleReplaced schema kind replaced st₁.pools
                reader := st₁.reader.comma }
termination_by 4 * st.remaining + 2
decreasing_by
  · simp only [Session.remaining_moveTo, Reader.remaining_colon]
    omega
  · change 4 * st₁.remaining + 2 < 4 * st.remaining + 2
    omega

end

namespace Schema

variable {st : Session}

theorem datumLog_scalar {kind : Kind} (hk : ∀ i, kind ≠ .message i) (st : Session) :
    schema.datumLog kind st = [] := by
  rw [datumLog]
  exact hk

theorem datumLog_message (i : Nat) (st : Session) :
    schema.datumLog (.message i) st = .taken i :: schema.messageLog i (st.pools.acquire schema i).1
      { pools := (st.pools.acquire schema i).2, reader := st.reader } := by
  rw [datumLog]

theorem messageLog_eq (index : Nat) (m : Message) (st : Session) :
    schema.messageLog index m st =
      match st.reader.symbol (ascii '{') with
      | (.error _, _) => []
      | (.ok _, s) => schema.fieldsLog index m (st.moveTo s) := by
  rw [messageLog]
  split <;> next h => simp only [h]

theorem fieldsLog_eq (index : Nat) (m : Message) (st : Session) :
    schema.fieldsLog index m st =
      if st.reader.atSymbol (ascii '}') then []
      else
        match st.reader.string with
        | (.error _, _) => []
        | (.ok key, s) =>
          match (schema.messageType index).slot? key with
          | none => schema.fieldsLog index m (st.moveTo s.colon.skipValue.comma)
          | some slot =>
            schema.slotLog slot (st.moveTo s.colon) ++
              match schema.readSlot index slot m (st.moveTo s.colon) with
              | (.error _, _, _) => []
              | (.ok _, m', st₁) =>
                returns (slot.types schema index m) ++
                  schema.fieldsLog index m' (st₁.moveTo st₁.reader.comma) := by
  rw [fieldsLog]
  split
  · rfl
  · split
    · next h => simp only [h]
    · next h =>
      simp only [h]
      split
      · rfl
      · congr 1
        split <;> next h' => simp only [h']

theorem slotLog_list {i : Nat} {f : Field} (hf : f.cardinality = .list) (st : Session) :
    schema.slotLog (.plain i f) st =
      match st.reader.symbol (ascii '[') with
      | (.error _, _) => []
      | (.ok _, s) => schema.elementsLog f.kind (st.moveTo s) := by
  rw [slotLog]
  simp only [hf]
  split <;> next h => simp only [h]

theorem slotLog_map {i : Nat} {f : Field} {keyKind : KeyKind} (hf : f.cardinality = .map keyKind)
    (st : Session) :
    schema.slotLog (.plain i f) st =
      match st.reader.symbol (ascii '{') with
      | (.error _, _) => []
      | (.ok _, s) => schema.entriesLog keyKind f.kind [] (st.moveTo s) := by
  rw [slotLog]
  simp only [hf]
  split <;> next h => simp only [h]

theorem elementsLog_eq (kind : Kind) (st : Session) :
    schema.elementsLog kind st =
      if st.reader.atSymbol (ascii ']') then []
      else
        schema.datumLog kind st ++
          match schema.readDatum kind st with
          | (.error _, _) => []
          | (.ok _, st₁) => schema.elementsLog kind (st₁.moveTo st₁.reader.comma) := by
  rw [elementsLog]
  split
  · rfl
  · congr 1
    split <;> next h => simp only [h]

theorem entriesLog_eq (keyKind : KeyKind) (kind : Kind) (before : List (MapKey × Datum))
    (st : Session) :
    schema.entriesLog keyKind kind before st =
      if st.reader.atSymbol (ascii '}') then []
      else
        match st.reader.mapKey keyKind with
        | (.error _, _) => []
        | (.ok key, s) =>
          schema.datumLog kind (st.moveTo s.colon) ++
            match schema.readDatum kind (st.moveTo s.colon) with
            | (.error _, _) => []
            | (.ok d, st₁) =>
              returns (((insertEntry key d before).2.map (Datum.types schema kind)).getD []) ++
                schema.entriesLog keyKind kind (insertEntry key d before).1
                  { pools := recycleReplaced schema kind (insertEntry key d before).2 st₁.pools
                    reader := st₁.reader.comma } := by
  rw [entriesLog]
  split
  · rfl
  · split
    · next h => simp only [h]
    · next h =>
      simp only [h]
      congr 1
      split <;> next h' => simp only [h']

/-! ## Runs -/

/-- A read that does to the pools what a log says. If it succeeds, it gives what was held before,
with what it takes and without what it returns. -/
structure Logged {α : Type} (schema : Schema) (log : List PoolEvent) (ps : Pools)
    (before : List Nat) (types : α → List Nat) (r : Except ReadError α × Session) : Prop where
  pools : r.2.pools = ps.replay schema log
  balances : ∀ a, r.1 = .ok a → Balances log before (types a)

/-- A read into a message that does to the pools what a log says. -/
structure LoggedMessage (schema : Schema) (index : Nat) (log : List PoolEvent) (m : Message)
    (ps : Pools) (r : Except ReadError Unit × Message × Session) : Prop where
  pools : r.2.2.pools = ps.replay schema log
  balances : r.1 = .ok () → Balances log (m.types schema index) (r.2.1.types schema index)

/-- A read that fails gives nothing that would have to be balanced. -/
theorem Logged.error {α : Type} {log : List PoolEvent} {before : List Nat} {types : α → List Nat}
    {e : ReadError} {ps : Pools} {st' : Session} (h : st'.pools = ps.replay schema log) :
    Logged schema log ps before types (.error e, st') := by
  refine ⟨h, fun a ha => ?_⟩
  cases ha

theorem LoggedMessage.error {index : Nat} {log : List PoolEvent} {m m' : Message}
    {e : ReadError} {ps : Pools} {st' : Session} (h : st'.pools = ps.replay schema log) :
    LoggedMessage schema index log m ps (.error e, m', st') := by
  refine ⟨h, fun ha => ?_⟩
  cases ha

/-- A read goes on from the pools and with what is held after the events before it. -/
theorem Logged.after {α : Type} {log log' : List PoolEvent} {ps ps' : Pools} {a b : List Nat}
    {types : α → List Nat} {r : Except ReadError α × Session} (h : Logged schema log' ps' b types r)
    (hpools : ps' = ps.replay schema log) (hbalances : Balances log a b) :
    Logged schema (log ++ log') ps a types r := by
  refine ⟨?_, fun x hx => hbalances.append (h.balances x hx)⟩
  rw [h.pools, hpools, Pools.replay_append]

theorem LoggedMessage.after {index : Nat} {log log' : List PoolEvent} {m m' : Message}
    {ps ps' : Pools} {r : Except ReadError Unit × Message × Session}
    (h : LoggedMessage schema index log' m' ps' r) (hpools : ps' = ps.replay schema log)
    (hbalances : Balances log (m.types schema index) (m'.types schema index)) :
    LoggedMessage schema index (log ++ log') m ps r := by
  refine ⟨?_, fun hok => hbalances.append (h.balances hok)⟩
  rw [h.pools, hpools, Pools.replay_append]

/-- Values that are no messages are read without the pools. -/
theorem readDatum_pools {kind : Kind} (hk : ∀ i, kind ≠ .message i) (st : Session) :
    (schema.readDatum kind st).2.pools = st.pools := by
  cases kind with
  | bool => rw [readDatum_bool]; rfl
  | integer k => rw [readDatum_integer]; rfl
  | float32 => rw [readDatum_float32]; rfl
  | float64 => rw [readDatum_float64]; rfl
  | string => rw [readDatum_string]; rfl
  | bytes => rw [readDatum_bytes]; rfl
  | enumeration i => rw [readDatum_enumeration]; rfl
  | message i => exact absurd rfl (hk i)

/-- A slot takes up what is read, and gives back what it held. -/
theorem store_logged {α : Type} {index : Nat} {m : Message} {slot : Slot} {log : List PoolEvent}
    {types : α → List Nat} {put : α → Pools → Message × Pools} {r : Except ReadError α × Session}
    {ps : Pools} (h : Logged schema log ps [] types r)
    (hput : ∀ a ps, Displaces schema index m slot (types a) ps (put a ps)) :
    LoggedMessage schema index
      (log ++ match store m put r with
        | (.error _, _, _) => []
        | (.ok _, _, _) => returns (slot.types schema index m)) m ps (store m put r) := by
  obtain ⟨res, st'⟩ := r
  cases res with
  | error e =>
    refine .error ?_
    rw [show store m put (.error e, st') = (.error e, m, st') from rfl, List.append_nil]
    exact h.pools
  | ok a =>
    have hdisplaces := hput a st'.pools
    have hpools : st'.pools = ps.replay schema log := h.pools
    refine ⟨?_, fun _ type => ?_⟩
    · show (put a st'.pools).2 = ps.replay schema (log ++ returns (slot.types schema index m))
      rw [hdisplaces.pools, Pools.replay_append, hpools]
    · -- What the slot held comes back once, and what was read is held once.
      have := hdisplaces.types type
      have := h.balances a rfl type
      show ((put a st'.pools).1.types schema index).count type
          + (log ++ returns (slot.types schema index m)).count (.returned type)
        = _ + (log ++ returns (slot.types schema index m)).count (.taken type)
      rw [List.count_append, List.count_append, count_returned_returns, count_taken_returns]
      rw [List.count_nil] at *
      omega

end Schema

/-- The read of a call does to the pools what its log says. -/
def Call.Logged (schema : Schema) : Call → Prop
  | datum kind st => st.pools.Clean schema →
    Schema.Logged schema (schema.datumLog kind st) st.pools [] (Datum.types schema kind)
      (schema.readDatum kind st)
  | message index m st => m.OfType schema index → st.pools.Clean schema →
    Schema.LoggedMessage schema index (schema.messageLog index m st) m st.pools
      (schema.readMessage index m st)
  | fields index m st => m.OfType schema index → st.pools.Clean schema →
    Schema.LoggedMessage schema index (schema.fieldsLog index m st) m st.pools
      (schema.readFields index m st)
  | .slot index target m st => target.IsOf (schema.messageType index) → m.OfType schema index →
    st.pools.Clean schema →
    Schema.LoggedMessage schema index
      (schema.slotLog target st ++ match schema.readSlot index target m st with
        | (.error _, _, _) => []
        | (.ok _, _, _) => returns (target.types schema index m)) m st.pools
      (schema.readSlot index target m st)
  | elements kind before st => st.pools.Clean schema →
    Schema.Logged schema (schema.elementsLog kind st) st.pools (typesElements schema kind before)
      (typesElements schema kind) (schema.readElements kind before st)
  | entries keyKind kind before st => (∀ e ∈ before, e.2.OfKind schema kind) →
    st.pools.Clean schema →
    Schema.Logged schema (schema.entriesLog keyKind kind before st) st.pools
      (typesEntries schema kind before) (typesEntries schema kind)
      (schema.readEntries keyKind kind before st)

namespace Schema

variable {st : Session}

/-- A message is read into one that is taken for it. -/
theorem readDatum_logged (kind : Kind)
    (hin : ∀ c', Call.Makes schema (.datum kind st) c' → c'.Logged schema) :
    (Call.datum kind st).Logged schema := by
  intro h
  -- Only messages come from the pools.
  by_cases hk : ∃ i, kind = .message i
  · obtain ⟨i, rfl⟩ := hk
    obtain ⟨hm, hps⟩ := h.acquire i
    have hread := hin _ .message (hm ▸ emptyMessage_ofType i) hps
    rw [datumLog_message, readDatum_message]
    dsimp only
    rcases hr : schema.readMessage i _ _ with ⟨e | u, m', st'⟩ <;> rw [hr] at hread
    · exact .error hread.pools
    · refine ⟨hread.pools, fun d hd => ?_⟩
      cases hd
      apply Balances.taken
      -- The pools are clean, so the message that is taken has no others within it.
      rw [← Message.types_emptyMessage schema i, ← hm]
      exact hread.balances rfl
  · have hk : ∀ i, kind ≠ .message i := fun i hi => hk ⟨i, hi⟩
    rw [datumLog_scalar hk]
    refine ⟨readDatum_pools hk st, fun d _ => ?_⟩
    rw [d.types_scalar hk]
    exact .nil []

theorem readMessage_logged (index : Nat) (m : Message)
    (hin : ∀ c', Call.Makes schema (.message index m st) c' → c'.Logged schema) :
    (Call.message index m st).Logged schema := by
  intro hm h
  rw [messageLog_eq, readMessage_eq]
  rcases hs : st.reader.symbol (ascii '{') with ⟨e | u, s⟩
  · exact .error rfl
  · exact hin _ (.fields hs) hm h

theorem readFields_logged (index : Nat) (m : Message)
    (hin : ∀ c', Call.Makes schema (.fields index m st) c' → c'.Logged schema) :
    (Call.fields index m st).Logged schema := by
  intro hm h
  rw [fieldsLog_eq, readFields_eq]
  cases hat : st.reader.atSymbol (ascii '}') with
  | true => exact ⟨rfl, fun _ => .nil _⟩
  | false =>
    rw [if_neg (by simp), if_neg (by simp)]
    rcases hkey : st.reader.string with ⟨e | key, s⟩
    · exact .error rfl
    · dsimp only
      cases hslot : (schema.messageType index).slot? key with
      | none => exact hin _ (.passed hat hkey hslot) hm h
      | some target =>
        have hisOf := MessageType.slot?_isOf hslot
        have hread := hin _ (.slot hat hkey hslot) hisOf hm h
        have hsound := Call.sound schema (.slot index target m (st.moveTo s.colon)) hisOf hm h
        dsimp only
        rcases hr : schema.readSlot index target m (st.moveTo s.colon) with ⟨e | u, m', st₁⟩ <;>
          rw [hr] at hread
        · exact .error hread.pools
        · rw [hr] at hsound
          have hrest := hin _ (.next hat hkey hslot hr) hsound.1 hsound.2
          dsimp only at hread ⊢
          -- The events of the slot, its value and what goes back for it, come first.
          rw [← List.append_assoc]
          exact hrest.after hread.pools (hread.balances rfl)

theorem readSlot_logged (hschema : schema.OneofsDeclared) (index : Nat) (target : Slot)
    (m : Message)
    (hin : ∀ c', Call.Makes schema (.slot index target m st) c' → c'.Logged schema) :
    (Call.slot index target m st).Logged schema := by
  intro htarget hm h
  cases target with
  | member j k f =>
    rw [readSlot_member_eq, slotLog]
    exact store_logged (hin _ .member h)
      fun d ps => Message.choose_displaces hschema hm htarget d ps
  | plain i f =>
    cases hf : f.cardinality with
    | singular =>
      rw [readSlot_singular_eq index i f hf, slotLog, hf]
      exact store_logged (hin _ (.singular hf) h)
        fun d ps => Message.assign_displaces hm htarget (.single d) ps
    | list =>
      rw [readSlot_list_eq index i f hf, slotLog_list hf]
      refine store_logged ?_ fun ds ps => Message.assign_displaces hm htarget (.list ds) ps
      rw [readList]
      rcases hs : st.reader.symbol (ascii '[') with ⟨e | u, s⟩
      · exact .error rfl
      · exact hin _ (.list hf hs) h
    | map keyKind =>
      rw [readSlot_map_eq index i f keyKind hf, slotLog_map hf]
      refine store_logged ?_ fun es ps => Message.assign_displaces hm htarget (.map es) ps
      rw [readMap]
      rcases hs : st.reader.symbol (ascii '{') with ⟨e | u, s⟩
      · exact .error rfl
      · exact hin _ (.map hf hs) (List.forall_mem_nil _) h

theorem readElements_logged (kind : Kind) (before : List Datum)
    (hin : ∀ c', Call.Makes schema (.elements kind before st) c' → c'.Logged schema) :
    (Call.elements kind before st).Logged schema := by
  intro h
  rw [elementsLog_eq, readElements_eq]
  cases hat : st.reader.atSymbol (ascii ']') with
  | true =>
    refine ⟨rfl, fun ds hds type => ?_⟩
    rw [Reader.of_close hds, count_typesElements_reverse]
    rfl
  | false =>
    have hread := hin _ (.element hat) h
    have hsound := Call.sound schema (.datum kind st) h
    rw [if_neg (by simp), if_neg (by simp)]
    rcases hr : schema.readDatum kind st with ⟨e | d, st₁⟩ <;> rw [hr] at hread
    · dsimp only
      rw [List.append_nil]
      exact .error hread.pools
    · rw [hr] at hsound
      exact (hin _ (.elements hat hr) hsound.2).after hread.pools ((hread.balances d rfl).frame _)

theorem readEntries_logged (keyKind : KeyKind) (kind : Kind) (before : List (MapKey × Datum))
    (hin : ∀ c', Call.Makes schema (.entries keyKind kind before st) c' → c'.Logged schema) :
    (Call.entries keyKind kind before st).Logged schema := by
  intro hbefore h
  rw [entriesLog_eq, readEntries_eq]
  cases hat : st.reader.atSymbol (ascii '}') with
  | true =>
    refine ⟨rfl, fun es hes => ?_⟩
    rw [Reader.of_close hes]
    exact .nil _
  | false =>
    rw [if_neg (by simp), if_neg (by simp)]
    rcases hs : st.reader.mapKey keyKind with ⟨e | key, s⟩
    · exact .error rfl
    · have hread := hin _ (.entry hat hs) h
      have hsound := Call.sound schema (.datum kind (st.moveTo s.colon)) h
      dsimp only
      rcases hr : schema.readDatum kind (st.moveTo s.colon) with ⟨e | d, st₁⟩ <;> rw [hr] at hread
      · dsimp only
        rw [List.append_nil]
        exact .error hread.pools
      · rw [hr] at hsound
        have hentries := insertEntry_ofKind key (hsound.1 d rfl) hbefore
        have hreplaced := replaced_ofKind key d hbefore
        have hrest := hin _ (.entries hat hs hr) hentries (recycleReplaced_clean hreplaced hsound.2)
        -- What the new value replaces goes back before the next entry is read.
        have hinsert := hrest.after (recycleReplaced_eq_replay st₁.pools hreplaced)
          (balances_insertEntry kind key d before)
        exact hinsert.after hread.pools ((hread.balances d rfl).frame _)

end Schema

/-- Every read that decoding consists of does to the pools what its log says. -/
theorem Call.logged (hschema : schema.OneofsDeclared) (c : Call) : c.Logged schema := by
  induction c using Call.induction schema with
  | h c hin =>
    cases c with
    | datum kind st => exact Schema.readDatum_logged kind hin
    | message index m st => exact Schema.readMessage_logged index m hin
    | fields index m st => exact Schema.readFields_logged index m hin
    | slot index target m st => exact Schema.readSlot_logged hschema index target m hin
    | elements kind before st => exact Schema.readElements_logged kind before hin
    | entries keyKind kind before st => exact Schema.readEntries_logged keyKind kind before hin

namespace Schema

/-- What decoding an input does to the pools. -/
def unmarshalLog (schema : Schema) (index : Nat) (input : List UInt8) (options : ReadOptions)
    (m : Message) (ps : Pools) : List PoolEvent :=
  schema.messageLog index m { pools := ps, reader := .ofBytes input options }

/-- The number of objects of a type that decoding reads for known keys: a message is taken for each
of them. -/
def objectsRead (schema : Schema) (index : Nat) (input : List UInt8) (options : ReadOptions)
    (m : Message) (ps : Pools) (type : Nat) : Nat :=
  (schema.unmarshalLog index input options m ps).count (.taken type)

/-- Decoding an input does to the pools what its log says. -/
theorem unmarshal_logged (hschema : schema.OneofsDeclared) {index : Nat} {m : Message} {ps : Pools}
    (hm : m.OfType schema index) (hps : ps.Clean schema) (input : List UInt8)
    (options : ReadOptions) :
    LoggedMessage schema index (schema.unmarshalLog index input options m ps) m ps
      (schema.unmarshal index input options m ps) :=
  Call.logged hschema (.message index m ⟨ps, .ofBytes input options⟩) hm hps

/-- The log of a success balances what the object holds. -/
theorem balances_of_unmarshal (hschema : schema.OneofsDeclared) {index : Nat} {m m' : Message}
    {ps : Pools} {st' : Session} {input : List UInt8} {options : ReadOptions}
    (hm : m.OfType schema index) (hps : ps.Clean schema)
    (hok : schema.unmarshal index input options m ps = (.ok (), m', st')) :
    Balances (schema.unmarshalLog index input options m ps) (m.types schema index)
      (m'.types schema index) := by
  have hread := unmarshal_logged hschema hm hps input options
  rw [hok] at hread
  exact hread.balances rfl

/-- There is room if the pool can take up the messages of the object and all that are read. -/
theorem hasRoom_of_unmarshal (hschema : schema.OneofsDeclared) {index type : Nat} {m m' : Message}
    {ps : Pools} {st' : Session} {input : List UInt8} {options : ReadOptions}
    (hm : m.OfType schema index) (hps : ps.Clean schema)
    (hok : schema.unmarshal index input options m ps = (.ok (), m', st'))
    (hroom : ps.size type + m.live schema index type
      + schema.objectsRead index input options m ps type ≤ ps.capacity type) :
    ps.HasRoom schema type (schema.unmarshalLog index input options m ps) := by
  have hbalance := balances_of_unmarshal hschema hm hps hok type
  rw [Message.live, objectsRead] at hroom
  apply Pools.hasRoom_of_le
  omega

/-- Messages are conserved. If the pool of a type has room for all that come back to it, returning
an object adds to it as many messages as the object has of the type. Decoding an input keeps the
number of those that wait and those of the object, except that a new one is made when the pool has
run out; it cannot run out if as many waited at the start as there are objects to read. Schemas that
are made from declarations have the oneofs that their fields refer to, and in the pools that a
program comes to no message that waits has a field set. -/
theorem messages_conserved (hschema : schema.OneofsDeclared) {index : Nat} {m : Message}
    {ps : Pools} (hm : m.OfType schema index) (hps : ps.Clean schema) (type : Nat) :
    (ps.size type + m.live schema index type ≤ ps.capacity type →
      (m.recycle schema index ps).size type = ps.size type + m.live schema index type) ∧
    ∀ (input : List UInt8) (options : ReadOptions) (m' : Message) (st' : Session),
      schema.unmarshal index input options m ps = (.ok (), m', st') →
      ps.HasRoom schema type (schema.unmarshalLog index input options m ps) →
      ps.size type + m.live schema index type
          ≤ st'.pools.size type + m'.live schema index type ∧
        st'.pools.size type + m'.live schema index type ≤ ps.size type + m.live schema index type
          + schema.objectsRead index input options m ps type ∧
        (schema.objectsRead index input options m ps type ≤ ps.size type →
          st'.pools.size type + m'.live schema index type
            = ps.size type + m.live schema index type) := by
  refine ⟨Message.size_recycle hm, fun input options m' st' hok hroom => ?_⟩
  have hbalance := balances_of_unmarshal hschema hm hps hok type
  have hread := unmarshal_logged hschema hm hps input options
  rw [hok] at hread
  have hpools : st'.pools = ps.replay schema (schema.unmarshalLog index input options m ps) :=
    hread.pools
  rw [Message.live, Message.live, objectsRead]
  obtain ⟨hupper, hlower, hexact⟩ := Pools.size_replay hroom
  rw [← hpools] at hupper hlower hexact
  -- What the log returns cancels: the pools gain it, and the object loses it.
  omega

/-- Pools of the example in which three messages wait. -/
def stockedPools : Pools :=
  (Pools.ofSchema Example.schema).replay Example.schema (returns [0, 0, 0])

/-- A map in which a key is repeated, and a member of a oneof. -/
def repeatedKeyText : List UInt8 := Utf8.ofString
  "\x7b\"msgMap\":\x7b\"1\":\x7b\x7d,\"1\":\x7b\x7d\x7d,\"oneofMsg\":\x7b\x7d\x7d"

/-- All three messages are there for the objects that are read, and one of them comes back. -/
theorem messages_conserved_repeatedKey :
    Example.schema.OneofsDeclared ∧ (Example.schema.emptyMessage 1).OfType Example.schema 1 ∧
      stockedPools.Clean Example.schema ∧
      ((Example.schema.emptyMessage 1).recycle Example.schema 1 stockedPools).size 1
        = stockedPools.size 1 + (Example.schema.emptyMessage 1).live Example.schema 1 1 ∧
      ∃ m' st', Example.schema.unmarshal 1 repeatedKeyText {} (Example.schema.emptyMessage 1)
          stockedPools = (.ok (), m', st') ∧
        stockedPools.HasRoom Example.schema 0 (Example.schema.unmarshalLog 1 repeatedKeyText {}
          (Example.schema.emptyMessage 1) stockedPools) ∧
        st'.pools.size 0 + m'.live Example.schema 1 0
          = stockedPools.size 0 + (Example.schema.emptyMessage 1).live Example.schema 1 0 := by
  have hm : (Example.schema.emptyMessage 1).OfType Example.schema 1 := emptyMessage_ofType 1
  have hps : stockedPools.Clean Example.schema := by
    apply Pools.Clean.replay
    exact Pools.clean_of_idle (Pools.idle_ofSchema _)
  have hcapacity : stockedPools.size 1
      + (Example.schema.emptyMessage 1).live Example.schema 1 1 ≤ stockedPools.capacity 1 := by
    decide +kernel
  have hok : (Example.schema.unmarshal 1 repeatedKeyText {} (Example.schema.emptyMessage 1)
      stockedPools).1 = .ok () := by
    decide +kernel
  have hroom : stockedPools.HasRoom Example.schema 0 (Example.schema.unmarshalLog 1
      repeatedKeyText {} (Example.schema.emptyMessage 1) stockedPools) :=
    hasRoom_of_unmarshal Example.oneofsDeclared hm hps (Prod.ext hok rfl) (by decide +kernel)
  have hread : Example.schema.objectsRead 1 repeatedKeyText {} (Example.schema.emptyMessage 1)
      stockedPools 0 ≤ stockedPools.size 0 := by
    decide +kernel
  refine ⟨Example.oneofsDeclared, hm, hps,
    (messages_conserved Example.oneofsDeclared hm hps 1).1 hcapacity, _, _, Prod.ext hok rfl, hroom,
    ?_⟩
  exact ((messages_conserved Example.oneofsDeclared hm hps 0).2 _ _ _ _ (Prod.ext hok rfl)
    hroom).2.2 hread

end Schema

end ProtoJson
