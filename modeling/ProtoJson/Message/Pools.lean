import ProtoJson.Message.Basic
import ProtoJson.Pool

/-!
# Message pools

One pool per message type. A message that is no longer needed is returned field by field: the
messages within go to their own pools, and every field is cleared before the message itself waits
for reuse.
-/

namespace ProtoJson

/-- The pools of the message types of a schema, in their order. -/
structure Pools where
  pools : List (Pool Message)

namespace Pools

/-- Empty pools for the types of a schema. -/
def ofSchema (schema : Schema) : Pools := ⟨schema.messages.map fun _ => .empty⟩

/-- The number of idle messages of a type. -/
def size (ps : Pools) (index : Nat) : Nat := ((ps.pools[index]?).map Pool.size).getD 0

/-- Takes an idle message of a type, or a new one. -/
def acquire (schema : Schema) (index : Nat) (ps : Pools) : Message × Pools :=
  match ps.pools[index]? with
  | none => (schema.emptyMessage index, ps)
  | some p =>
    let (m, p) := p.acquire (schema.emptyMessage index)
    (m, ⟨ps.pools.set index p⟩)

/-- Returns a message that has been cleared. -/
def release (index : Nat) (m : Message) (ps : Pools) : Pools :=
  ⟨ps.pools.modify index (·.release m)⟩

end Pools

mutual

/-- Returns the messages of a value of a kind. -/
def Datum.recycle (schema : Schema) (kind : Kind) : Datum → Pools → Pools
  | .message m, ps =>
    match kind with
    | .message i => Message.recycle schema i m ps
    | _ => ps
  | .bool _, ps | .integer _, ps | .float32 _, ps | .float64 _, ps | .string _, ps | .bytes _, ps
  | .enumeration _, ps => ps

/-- Returns the messages of a list. -/
def recycleElements (schema : Schema) (kind : Kind) : List Datum → Pools → Pools
  | [], ps => ps
  | d :: ds, ps => recycleElements schema kind ds (Datum.recycle schema kind d ps)

/-- Returns the messages of a map. -/
def recycleEntries (schema : Schema) (kind : Kind) : List (MapKey × Datum) → Pools → Pools
  | [], ps => ps
  | (_, d) :: es, ps => recycleEntries schema kind es (Datum.recycle schema kind d ps)

/-- Returns the messages that a field holds. -/
def Content.recycle (schema : Schema) (kind : Kind) : Content → Pools → Pools
  | .absent, ps => ps
  | .single d, ps => Datum.recycle schema kind d ps
  | .list ds, ps => recycleElements schema kind ds ps
  | .map es, ps => recycleEntries schema kind es ps

/-- Returns the messages of the plain fields, and clears the fields. -/
def recyclePlain (schema : Schema) : List Content → List Field → Pools → List Content × Pools
  | c :: cs, f :: fs, ps =>
    let ps := Content.recycle schema f.kind c ps
    let (cs, ps) := recyclePlain schema cs fs ps
    (schema.initial f :: cs, ps)
  | cs, _, ps => (cs, ps)

/-- Returns the message that a oneof holds. -/
def Choice.recycle (schema : Schema) (type : MessageType) (index : Nat) : Choice → Pools → Pools
  | .unset, ps => ps
  | .member k d, ps =>
    match (type.members index)[k]? with
    | none => ps
    | some f => Datum.recycle schema f.kind d ps

/-- Returns the messages of the oneofs, and clears them. `index` is the number of the first. -/
def recycleChoices (schema : Schema) (type : MessageType) :
    List Choice → Nat → Pools → List Choice × Pools
  | [], _, ps => ([], ps)
  | c :: cs, index, ps =>
    let ps := Choice.recycle schema type index c ps
    let (cs, ps) := recycleChoices schema type cs (index + 1) ps
    (.unset :: cs, ps)

/-- Returns a message and all messages within it. -/
def Message.recycle (schema : Schema) (index : Nat) : Message → Pools → Pools
  | .mk plain choices, ps =>
    let type := schema.messageType index
    let (plain, ps) := recyclePlain schema plain type.plainFields ps
    let (choices, ps) := recycleChoices schema type choices 0 ps
    ps.release index (.mk plain choices)

end

end ProtoJson
