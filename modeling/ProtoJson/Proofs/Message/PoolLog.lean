import Mathlib.Data.List.Count
import ProtoJson.Proofs.Message.Typing
import ProtoJson.Proofs.Schema.Oneofs

/-!
# Logs of the pools

A log lists the messages that are taken from the pools and those that are returned, in order. It
determines the sizes of the pools. Returning an object is the same as the log of the types of its
messages, and a log balances what is held if that has gained what the log takes and lost what it
returns.
-/

namespace ProtoJson

variable {schema : Schema}

/-! ## Single pools -/

namespace Pool

variable {α : Type} (p : Pool α) (a : α)

theorem size_acquire : (p.acquire a).2.size = p.size - 1 := by
  rw [acquire, size, size]
  split
  · next h => rw [h]; rfl
  · next h => rw [h]; rfl

theorem capacity_acquire : (p.acquire a).2.capacity = p.capacity := by
  rw [acquire]
  split <;> rfl

theorem size_release :
    (p.release a).size = if p.size < p.capacity then p.size + 1 else p.size := by
  rw [release]
  split
  · exact List.length_append
  · rfl

theorem capacity_release : (p.release a).capacity = p.capacity := by
  rw [release]
  split <;> rfl

end Pool

/-! ## Logs -/

/-- What a call does to the pools. -/
inductive PoolEvent where
  /-- A message of this type is taken. -/
  | taken (type : Nat)
  /-- A message of this type is returned, with no field set. -/
  | returned (type : Nat)
  deriving DecidableEq, Repr

/-- The return of messages of these types. -/
def returns (types : List Nat) : List PoolEvent := types.map .returned

theorem returns_append (types types' : List Nat) :
    returns (types ++ types') = returns types ++ returns types' := List.map_append

@[simp] theorem count_returned_returns (types : List Nat) (type : Nat) :
    (returns types).count (.returned type) = types.count type :=
  List.count_map_of_injective types _ (fun _ _ h => PoolEvent.returned.inj h) type

@[simp] theorem count_taken_returns (types : List Nat) (type : Nat) :
    (returns types).count (.taken type) = 0 := by
  rw [List.count_eq_zero]
  intro h
  obtain ⟨i, -, hi⟩ := List.mem_map.1 h
  cases hi

namespace Pools

/-- The number of messages of a type that may wait. -/
def capacity (ps : Pools) (type : Nat) : Nat := ((ps.pools[type]?).map Pool.capacity).getD 0

/-- The pools after an event. -/
def after (schema : Schema) (ps : Pools) : PoolEvent → Pools
  | .taken i => (ps.acquire schema i).2
  | .returned i => ps.release i (schema.emptyMessage i)

/-- The pools after the events of a log. -/
def replay (schema : Schema) (log : List PoolEvent) (ps : Pools) : Pools :=
  log.foldl (after schema) ps

/-- No message of a type comes back to a full pool in the course of a log. -/
def HasRoom (schema : Schema) (type : Nat) : Pools → List PoolEvent → Prop
  | _, [] => True
  | ps, e :: log =>
    (e = .returned type → ps.size type < ps.capacity type) ∧
      HasRoom schema type (ps.after schema e) log

variable {ps : Pools} {log log' : List PoolEvent}

@[simp] theorem replay_nil (ps : Pools) : ps.replay schema [] = ps := rfl

@[simp] theorem replay_cons (e : PoolEvent) (log : List PoolEvent) (ps : Pools) :
    ps.replay schema (e :: log) = (ps.after schema e).replay schema log := rfl

@[simp] theorem replay_append (log log' : List PoolEvent) (ps : Pools) :
    ps.replay schema (log ++ log') = (ps.replay schema log).replay schema log' :=
  List.foldl_append

theorem replay_returns_append (types types' : List Nat) (ps : Pools) :
    ps.replay schema (returns (types ++ types'))
      = (ps.replay schema (returns types)).replay schema (returns types') := by
  rw [returns_append, replay_append]

/-! ## The sizes of the pools -/

theorem getElem?_after_taken (ps : Pools) (i type : Nat) :
    (ps.after schema (.taken i)).pools[type]?
      = (ps.pools[type]?).map fun p =>
        if i = type then (p.acquire (schema.emptyMessage i)).2 else p := by
  rw [after, acquire]
  cases hp : ps.pools[i]? with
  | none =>
    by_cases hi : i = type
    · subst hi
      simp [hp]
    · simp [hi]
  | some p =>
    dsimp only
    rw [List.getElem?_set]
    obtain ⟨hlt, rfl⟩ := List.getElem?_eq_some_iff.1 hp
    by_cases hi : i = type
    · subst hi
      simp [hlt]
    · simp [hi]

theorem getElem?_after_returned (ps : Pools) (i type : Nat) :
    (ps.after schema (.returned i)).pools[type]?
      = (ps.pools[type]?).map fun p =>
        if i = type then p.release (schema.emptyMessage i) else p :=
  List.getElem?_modify ..

theorem capacity_of_map {ps' : Pools} {type : Nat} {f : Pool Message → Pool Message}
    (h : ps'.pools[type]? = (ps.pools[type]?).map f) (hf : ∀ p, (f p).capacity = p.capacity) :
    ps'.capacity type = ps.capacity type := by
  have hcomp : Pool.capacity ∘ f = Pool.capacity := funext hf
  rw [capacity, capacity, h, Option.map_map, hcomp]

@[simp] theorem capacity_after (ps : Pools) (e : PoolEvent) (type : Nat) :
    (ps.after schema e).capacity type = ps.capacity type := by
  cases e with
  | taken i =>
    apply capacity_of_map (getElem?_after_taken ps i type)
    intro p
    split
    · exact p.capacity_acquire _
    · rfl
  | returned i =>
    apply capacity_of_map (getElem?_after_returned ps i type)
    intro p
    split
    · exact p.capacity_release _
    · rfl

/-- A pool that is not empty has one message less after one is taken from it. -/
theorem size_after_taken (schema : Schema) (ps : Pools) (i type : Nat) :
    (ps.after schema (.taken i)).size type
      = if i = type then ps.size type - 1 else ps.size type := by
  rw [size, size, getElem?_after_taken]
  cases ps.pools[type]? with
  | none => simp
  | some p =>
    simp only [Option.map_some, Option.getD_some]
    split
    · exact p.size_acquire _
    · rfl

/-- A pool that is not full has one message more after one is returned to it. -/
theorem size_after_returned (schema : Schema) (ps : Pools) (i type : Nat) :
    (ps.after schema (.returned i)).size type
      = if i = type ∧ ps.size type < ps.capacity type then ps.size type + 1 else ps.size type := by
  rw [size, size, capacity, getElem?_after_returned]
  cases ps.pools[type]? with
  | none => simp
  | some p =>
    simp only [Option.map_some, Option.getD_some]
    by_cases hi : i = type
    · simp [hi, p.size_release]
    · simp [hi]

variable {type : Nat}

/-- There is room if all that is returned has room. -/
theorem hasRoom_of_le (h : ps.size type + log.count (.returned type) ≤ ps.capacity type) :
    ps.HasRoom schema type log := by
  induction log generalizing ps with
  | nil => trivial
  | cons e log ih =>
    cases e with
    | taken i =>
      have hsize := size_after_taken schema ps i type
      rw [List.count_cons_of_ne (by simp)] at h
      refine ⟨fun he => (by cases he), ih ?_⟩
      rw [capacity_after]
      split at hsize <;> omega
    | returned i =>
      have hsize := size_after_returned schema ps i type
      by_cases hi : i = type
      · subst hi
        rw [List.count_cons_self] at h
        refine ⟨fun _ => by omega, ih ?_⟩
        rw [capacity_after]
        split at hsize <;> omega
      · rw [List.count_cons_of_ne (by simpa using hi)] at h
        refine ⟨fun he => absurd (PoolEvent.returned.inj he) hi, ih ?_⟩
        rw [capacity_after]
        rw [if_neg fun h => hi h.1] at hsize
        omega

/-- What a log makes of the size of a pool with room. The pool may run out of messages, but not if
it held all that are taken at the start. -/
theorem size_replay (h : ps.HasRoom schema type log) :
    (ps.replay schema log).size type ≤ ps.size type + log.count (.returned type) ∧
      ps.size type + log.count (.returned type)
        ≤ (ps.replay schema log).size type + log.count (.taken type) ∧
      (log.count (.taken type) ≤ ps.size type →
        (ps.replay schema log).size type + log.count (.taken type)
          = ps.size type + log.count (.returned type)) := by
  induction log generalizing ps with
  | nil => exact ⟨Nat.le_refl _, Nat.le_refl _, fun _ => rfl⟩
  | cons e log ih =>
    obtain ⟨hroom, hrest⟩ := h
    have hlog := ih hrest
    rw [replay_cons]
    cases e with
    | taken i =>
      have hsize := size_after_taken schema ps i type
      rw [List.count_cons_of_ne (b := PoolEvent.taken i) (a := .returned type) (by simp)]
      -- If the pool has run out, the event counts as taken and the size stays zero.
      by_cases hi : i = type
      · subst hi
        rw [if_pos rfl] at hsize
        rw [List.count_cons_self]
        omega
      · rw [if_neg hi] at hsize
        rw [List.count_cons_of_ne (by simpa using hi)]
        omega
    | returned i =>
      have hsize := size_after_returned schema ps i type
      rw [List.count_cons_of_ne (b := PoolEvent.returned i) (a := .taken type) (by simp)]
      -- Without room the message would be let go, and the size would stay.
      by_cases hi : i = type
      · subst hi
        rw [if_pos ⟨rfl, hroom rfl⟩] at hsize
        rw [List.count_cons_self]
        omega
      · rw [if_neg fun h => hi h.1] at hsize
        rw [List.count_cons_of_ne (by simpa using hi)]
        omega

end Pools

/-! ## The messages of an object -/

mutual

/-- The types of the messages of a value of a kind. A message stands after those within it. -/
def Datum.types (schema : Schema) (kind : Kind) : Datum → List Nat
  | .message m =>
    match kind with
    | .message i => Message.types schema i m
    | _ => []
  | .bool _ | .integer _ | .float32 _ | .float64 _ | .string _ | .bytes _ | .enumeration _ => []

/-- The types of the messages of a list. -/
def typesElements (schema : Schema) (kind : Kind) : List Datum → List Nat
  | [] => []
  | d :: ds => Datum.types schema kind d ++ typesElements schema kind ds

/-- The types of the messages of a map. -/
def typesEntries (schema : Schema) (kind : Kind) : List (MapKey × Datum) → List Nat
  | [] => []
  | (_, d) :: es => Datum.types schema kind d ++ typesEntries schema kind es

/-- The types of the messages that a field holds. -/
def Content.types (schema : Schema) (kind : Kind) : Content → List Nat
  | .absent => []
  | .single d => Datum.types schema kind d
  | .list ds => typesElements schema kind ds
  | .map es => typesEntries schema kind es

/-- The types of the messages of the plain fields. -/
def typesPlain (schema : Schema) : List Content → List Field → List Nat
  | c :: cs, f :: fs => Content.types schema f.kind c ++ typesPlain schema cs fs
  | _, _ => []

/-- The types of the messages of the value that a oneof holds. -/
def Choice.types (schema : Schema) (type : MessageType) (index : Nat) : Choice → List Nat
  | .unset => []
  | .member k d =>
    match (type.members index)[k]? with
    | none => []
    | some f => Datum.types schema f.kind d

/-- The types of the messages of the oneofs. `index` is the number of the first. -/
def typesChoices (schema : Schema) (type : MessageType) : List Choice → Nat → List Nat
  | [], _ => []
  | c :: cs, index => Choice.types schema type index c ++ typesChoices schema type cs (index + 1)

/-- The types of a message and of all messages within it. -/
def Message.types (schema : Schema) (index : Nat) : Message → List Nat
  | .mk plain choices =>
    typesPlain schema plain (schema.messageType index).plainFields ++
      typesChoices schema (schema.messageType index) choices 0 ++ [index]

end

/-- The number of messages of a type in an object. -/
def Message.live (schema : Schema) (index : Nat) (m : Message) (type : Nat) : Nat :=
  (m.types schema index).count type

/-! ## Recycling -/

/-- A message of which every field is cleared has no field set. -/
theorem Message.mk_eq_emptyMessage {index : Nat} {choices : List Choice}
    (h : choices.length = (schema.messageType index).oneofs.length) :
    Message.mk ((schema.messageType index).plainFields.map schema.initial)
      (choices.map fun _ => .unset) = schema.emptyMessage index := by
  rw [Schema.emptyMessage, List.map_const', List.map_const', h]

mutual

/-- Returning the messages of a value comes to the return of their types, one after the other. -/
theorem Datum.recycle_eq_replay (kind : Kind) (d : Datum) (ps : Pools)
    (hd : d.OfKind schema kind) :
    d.recycle schema kind ps = ps.replay schema (returns (d.types schema kind)) := by
  cases d with
  | message m =>
    obtain ⟨i, rfl, hm⟩ := hd
    exact Message.recycle_eq_replay i m ps hm
  | _ => rfl

theorem recycleElements_eq_replay (kind : Kind) (ds : List Datum) (ps : Pools)
    (hds : ElementsOfKind schema kind ds) :
    recycleElements schema kind ds ps
      = ps.replay schema (returns (typesElements schema kind ds)) := by
  cases ds with
  | nil => rfl
  | cons d ds =>
    rw [recycleElements, typesElements, Pools.replay_returns_append,
      Datum.recycle_eq_replay kind d ps hds.1, recycleElements_eq_replay kind ds _ hds.2]

theorem recycleEntries_eq_replay (keyKind : KeyKind) (kind : Kind) (es : List (MapKey × Datum))
    (ps : Pools) (hes : EntriesOfKind schema keyKind kind es) :
    recycleEntries schema kind es ps
      = ps.replay schema (returns (typesEntries schema kind es)) := by
  cases es with
  | nil => rfl
  | cons e es =>
    obtain ⟨key, d⟩ := e
    rw [recycleEntries, typesEntries, Pools.replay_returns_append,
      Datum.recycle_eq_replay kind d ps hes.2.1, recycleEntries_eq_replay keyKind kind es _ hes.2.2]

theorem Content.recycle_eq_replay (f : Field) (c : Content) (ps : Pools)
    (hc : c.OfField schema f) :
    c.recycle schema f.kind ps = ps.replay schema (returns (c.types schema f.kind)) := by
  cases c with
  | absent => rfl
  | single d => exact Datum.recycle_eq_replay f.kind d ps hc.2
  | list ds => exact recycleElements_eq_replay f.kind ds ps hc.2
  | map es =>
    obtain ⟨k, -, hes, -⟩ := hc
    exact recycleEntries_eq_replay k f.kind es ps hes

theorem recyclePlain_eq_replay (cs : List Content) (fs : List Field) (ps : Pools)
    (hcs : PlainOfFields schema cs fs) :
    recyclePlain schema cs fs ps
      = (fs.map schema.initial, ps.replay schema (returns (typesPlain schema cs fs))) := by
  cases cs with
  | nil =>
    cases fs with
    | nil => rfl
    | cons f fs => cases hcs
  | cons c cs =>
    cases fs with
    | nil => cases hcs
    | cons f fs =>
      rw [recyclePlain, typesPlain, Pools.replay_returns_append,
        Content.recycle_eq_replay f c ps hcs.1, recyclePlain_eq_replay cs fs _ hcs.2]
      rfl

theorem Choice.recycle_eq_replay (type : MessageType) (index : Nat) (c : Choice) (ps : Pools)
    (hc : c.OfMembers schema (type.members index)) :
    c.recycle schema type index ps = ps.replay schema (returns (c.types schema type index)) := by
  cases c with
  | unset => rfl
  | member k d =>
    obtain ⟨f, hf, hd⟩ := hc
    rw [Choice.recycle, Choice.types, hf]
    exact Datum.recycle_eq_replay f.kind d ps hd

theorem recycleChoices_eq_replay (type : MessageType) (cs : List Choice) (index : Nat)
    (ps : Pools) (hcs : ChoicesOfType schema type cs index) :
    recycleChoices schema type cs index ps = (cs.map fun _ => .unset,
      ps.replay schema (returns (typesChoices schema type cs index))) := by
  cases cs with
  | nil => rfl
  | cons c cs =>
    rw [recycleChoices, typesChoices, Pools.replay_returns_append,
      Choice.recycle_eq_replay type index c ps hcs.1,
      recycleChoices_eq_replay type cs (index + 1) _ hcs.2]
    rfl

/-- A message is returned after those within it, with no field set. -/
theorem Message.recycle_eq_replay (index : Nat) (m : Message) (ps : Pools)
    (hm : m.OfType schema index) :
    m.recycle schema index ps = ps.replay schema (returns (m.types schema index)) := by
  cases m with
  | mk plain choices =>
    have hlen : choices.length = (schema.messageType index).oneofs.length :=
      ((Message.ofType_iff index _).1 hm).2.1
    obtain ⟨hplain, hchoices⟩ := hm
    rw [Message.recycle, Message.types, Pools.replay_returns_append, Pools.replay_returns_append]
    dsimp only
    -- What is released at the end is the message with its fields cleared.
    rw [recyclePlain_eq_replay plain _ ps hplain, recycleChoices_eq_replay _ choices 0 _ hchoices,
      Message.mk_eq_emptyMessage hlen]
    rfl

end

theorem recycleReplaced_eq_replay {kind : Kind} {old : Option Datum} (ps : Pools)
    (hold : ∀ d, old = some d → d.OfKind schema kind) :
    recycleReplaced schema kind old ps
      = ps.replay schema (returns ((old.map (Datum.types schema kind)).getD [])) := by
  cases old with
  | none => rfl
  | some d => exact Datum.recycle_eq_replay kind d ps (hold d rfl)

/-- Returning an object adds its messages to the pools that have room for them. -/
theorem Message.size_recycle {index type : Nat} {m : Message} {ps : Pools}
    (hm : m.OfType schema index)
    (hroom : ps.size type + m.live schema index type ≤ ps.capacity type) :
    (m.recycle schema index ps).size type = ps.size type + m.live schema index type := by
  have hlog : ps.HasRoom schema type (returns (m.types schema index)) := by
    apply Pools.hasRoom_of_le
    rw [count_returned_returns]
    exact hroom
  have hsize := Pools.size_replay hlog
  rw [count_returned_returns, count_taken_returns] at hsize
  rw [Message.recycle_eq_replay index m ps hm]
  exact hsize.2.2 (Nat.zero_le _)

/-! ## Balances -/

/-- What is held after the events of a log is what was held before, with what the log takes and
without what it returns. -/
def Balances (log : List PoolEvent) (before after : List Nat) : Prop :=
  ∀ type, after.count type + log.count (.returned type)
    = before.count type + log.count (.taken type)

namespace Balances

variable {log log' : List PoolEvent} {a b c : List Nat}

theorem nil (a : List Nat) : Balances [] a a := fun _ => rfl

theorem append (h : Balances log a b) (h' : Balances log' b c) : Balances (log ++ log') a c := by
  intro type
  have := h type
  have := h' type
  rw [List.count_append, List.count_append]
  omega

/-- What is held besides does not matter. -/
theorem frame (h : Balances log [] a) (x : List Nat) : Balances log x (a ++ x) := by
  intro type
  have := h type
  rw [List.count_nil] at this
  rw [List.count_append]
  omega

/-- A message that is taken is held from then on. -/
theorem taken {i : Nat} (h : Balances log [i] a) : Balances (.taken i :: log) [] a := by
  intro type
  have := h type
  rw [List.count_cons_of_ne (b := PoolEvent.taken i) (a := .returned type) (by simp),
    List.count_nil]
  by_cases hi : i = type
  · subst hi
    rw [List.count_cons_self]
    rw [List.count_singleton_self] at this
    omega
  · rw [List.count_cons_of_ne (by simpa using hi)]
    rw [List.count_cons_of_ne hi, List.count_nil] at this
    omega

end Balances

/-! ## What is held -/

/-- Only the values of one kind are messages. -/
theorem Datum.types_scalar {kind : Kind} (hk : ∀ i, kind ≠ .message i) (d : Datum) :
    d.types schema kind = [] := by
  cases d with
  | message m =>
    cases kind with
    | message i => exact absurd rfl (hk i)
    | _ => rfl
  | _ => rfl

theorem Content.types_initial (f : Field) : (schema.initial f).types schema f.kind = [] := by
  rw [Schema.initial]
  cases f.cardinality with
  | singular => cases hk : f.kind <;> rfl
  | list => rfl
  | map k => rfl

theorem typesPlain_initial (fs : List Field) :
    typesPlain schema (fs.map schema.initial) fs = [] := by
  induction fs with
  | nil => rfl
  | cons f fs ih => rw [List.map_cons, typesPlain, Content.types_initial, ih, List.append_nil]

theorem typesChoices_unset {α : Type} (type : MessageType) (xs : List α) (index : Nat) :
    typesChoices schema type (xs.map fun _ => .unset) index = [] := by
  induction xs generalizing index with
  | nil => rfl
  | cons x xs ih => rw [List.map_cons, typesChoices, Choice.types, ih, List.append_nil]

/-- There are no messages within one that has no field set. -/
theorem Message.types_emptyMessage (schema : Schema) (index : Nat) :
    (schema.emptyMessage index).types schema index = [index] := by
  rw [Schema.emptyMessage, Message.types, typesPlain_initial, typesChoices_unset]
  rfl

theorem typesElements_eq_flatMap (kind : Kind) (ds : List Datum) :
    typesElements schema kind ds = ds.flatMap (Datum.types schema kind) := by
  induction ds with
  | nil => rfl
  | cons d ds ih => rw [typesElements, ih, List.flatMap_cons]

theorem count_typesElements_reverse (kind : Kind) (ds : List Datum) (type : Nat) :
    (typesElements schema kind ds.reverse).count type
      = (typesElements schema kind ds).count type := by
  rw [typesElements_eq_flatMap, typesElements_eq_flatMap]
  exact (ds.reverse_perm.flatMap_right _).count_eq type

/-- An insertion adds the new value, and takes away the one that it replaces. -/
theorem count_typesEntries_insertEntry (schema : Schema) (kind : Kind) (key : MapKey)
    (d : Datum) (es : List (MapKey × Datum)) (type : Nat) :
    (typesEntries schema kind (insertEntry key d es).1).count type
        + (((insertEntry key d es).2.map (Datum.types schema kind)).getD []).count type
      = (typesEntries schema kind es).count type + (d.types schema kind).count type := by
  induction es with
  | nil => simp [insertEntry, typesEntries]
  | cons e es ih =>
    obtain ⟨k, old⟩ := e
    rcases insertEntry_cons key k d old es with ⟨-, heq⟩ | ⟨-, -, heq⟩ | ⟨-, -, heq⟩ <;>
      rw [heq] <;> simp only [typesEntries, List.count_append, Option.map_none, Option.map_some,
        Option.getD_none, Option.getD_some, List.count_nil]
    · omega
    · omega
    · omega

theorem balances_insertEntry (kind : Kind) (key : MapKey) (d : Datum)
    (es : List (MapKey × Datum)) :
    Balances (returns (((insertEntry key d es).2.map (Datum.types schema kind)).getD []))
      (d.types schema kind ++ typesEntries schema kind es)
      (typesEntries schema kind (insertEntry key d es).1) := by
  intro type
  have := count_typesEntries_insertEntry schema kind key d es type
  rw [count_returned_returns, count_taken_returns, List.count_append]
  omega

theorem count_typesPlain_set (schema : Schema) {cs : List Content} {fs : List Field} {i : Nat}
    {old : Content} {f : Field} (hold : cs[i]? = some old) (hf : fs[i]? = some f) (c : Content)
    (type : Nat) :
    (typesPlain schema (cs.set i c) fs).count type + (old.types schema f.kind).count type
      = (typesPlain schema cs fs).count type + (c.types schema f.kind).count type := by
  induction cs generalizing fs i with
  | nil => cases hold
  | cons c' cs ih =>
    cases fs with
    | nil => cases hf
    | cons f' fs =>
      cases i with
      | zero =>
        obtain rfl : c' = old := Option.some.inj hold
        obtain rfl : f' = f := Option.some.inj hf
        simp only [List.set_cons_zero, typesPlain, List.count_append]
        omega
      | succ i =>
        have := ih hold hf
        simp only [List.set_cons_succ, typesPlain, List.count_append]
        omega

theorem count_typesChoices_set (schema : Schema) (type : MessageType) {cs : List Choice} {j : Nat}
    {old : Choice} (hold : cs[j]? = some old) (c : Choice) (index i : Nat) :
    (typesChoices schema type (cs.set j c) index).count i
        + (old.types schema type (index + j)).count i
      = (typesChoices schema type cs index).count i
        + (c.types schema type (index + j)).count i := by
  induction cs generalizing j index with
  | nil => cases hold
  | cons c' cs ih =>
    cases j with
    | zero =>
      obtain rfl : c' = old := Option.some.inj hold
      simp only [List.set_cons_zero, typesChoices, List.count_append, Nat.add_zero]
      omega
    | succ j =>
      have := ih hold (index + 1)
      rw [Nat.add_right_comm, Nat.add_assoc] at this
      simp only [List.set_cons_succ, typesChoices, List.count_append]
      omega

/-- The types of the messages that a slot of a message holds. -/
def Slot.types (schema : Schema) (index : Nat) (m : Message) : Slot → List Nat
  | .plain i f => ((m.plain[i]?).getD .absent).types schema f.kind
  | .member j _ _ =>
    ((m.choices[j]?).getD .unset).types schema (schema.messageType index) j

/-- What a slot takes up in place of what it held. The messages that it held go back. -/
structure Displaces (schema : Schema) (index : Nat) (m : Message) (slot : Slot) (new : List Nat)
    (ps : Pools) (r : Message × Pools) : Prop where
  pools : r.2 = ps.replay schema (returns (slot.types schema index m))
  types : ∀ type, (r.1.types schema index).count type + (slot.types schema index m).count type
    = (m.types schema index).count type + new.count type

theorem Message.assign_displaces {index i : Nat} {m : Message} {f : Field}
    (hm : m.OfType schema index) (hf : (schema.messageType index).plainFields[i]? = some f)
    (c : Content) (ps : Pools) :
    Displaces schema index m (.plain i f) (c.types schema f.kind) ps
      (m.assign schema i f.kind c ps) := by
  -- The message has the field, so something stands in its place.
  have hlen := ((Message.ofType_iff index m).1 hm).1.1
  have hi : i < m.plain.length := hlen ▸ (List.getElem?_eq_some_iff.1 hf).1
  obtain ⟨old, hold⟩ : ∃ old, m.plain[i]? = some old := ⟨_, List.getElem?_eq_getElem hi⟩
  have htypes : (Slot.plain i f).types schema index m = old.types schema f.kind := by
    rw [Slot.types, hold, Option.getD_some]
  refine ⟨?_, fun type => ?_⟩
  · rw [Message.assign, htypes, hold, Option.getD_some]
    exact Content.recycle_eq_replay f old ps (Message.plain_ofField hm hf hold)
  · rw [htypes]
    cases m with
    | mk plain choices =>
      have := count_typesPlain_set schema hold hf c type
      simp only [Message.assign, Message.setPlain, Message.plain, Message.choices, Message.types,
        List.count_append] at this ⊢
      omega

theorem Message.choose_displaces {index j k : Nat} {m : Message} {f : Field}
    (hschema : schema.OneofsDeclared) (hm : m.OfType schema index)
    (hf : ((schema.messageType index).members j)[k]? = some f) (d : Datum) (ps : Pools) :
    Displaces schema index m (.member j k f) (d.types schema f.kind) ps
      (m.choose schema (schema.messageType index) j k d ps) := by
  -- The message has the oneof of the member; otherwise what was read would be lost.
  have hlen := ((Message.ofType_iff index m).1 hm).2.1
  obtain ⟨hfields, honeof⟩ := MessageType.of_members hf
  have hj : j < m.choices.length := hlen ▸ hschema.lt hfields honeof
  obtain ⟨old, hold⟩ : ∃ old, m.choices[j]? = some old := ⟨_, List.getElem?_eq_getElem hj⟩
  have htypes : (Slot.member j k f).types schema index m
      = old.types schema (schema.messageType index) j := by
    rw [Slot.types, hold, Option.getD_some]
  refine ⟨?_, fun type => ?_⟩
  · rw [Message.choose, htypes, hold, Option.getD_some]
    exact Choice.recycle_eq_replay _ j old ps (Message.choice_ofMembers hm hold)
  · rw [htypes]
    cases m with
    | mk plain choices =>
      have := count_typesChoices_set schema (schema.messageType index) hold
        (.member k d) 0 type
      rw [Nat.zero_add, show (Choice.member k d).types schema (schema.messageType index) j
        = d.types schema f.kind by rw [Choice.types, hf]] at this
      simp only [Message.choose, Message.setChoice, Message.plain, Message.choices, Message.types,
        List.count_append] at this ⊢
      omega

end ProtoJson
