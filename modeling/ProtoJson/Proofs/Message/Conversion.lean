import Mathlib.Data.List.ReduceOption
import ProtoJson.Message.Decode
import ProtoJson.Proofs.Grammar.Tree

/-!
# What a JSON text means for a message

A JSON object assigns the fields of a message, member by member. A member whose key is not declared
assigns nothing, and one whose key or value does not convert to its field's kind is a failure. This
is said of trees, without a reader: the decoder is proved to compute it in `Message.Decoding`.
-/

namespace ProtoJson

/-- What a member of an object does to a message. -/
inductive Assignment where
  /-- The plain field of this index is replaced. -/
  | plain (index : Nat) (c : Content)
  /-- The oneof is replaced by one of its members. -/
  | member (oneof index : Nat) (d : Datum)

/-- The message after an assignment. -/
def Assignment.put (m : Message) : Assignment → Message
  | plain i c => m.setPlain i c
  | member j k d => m.setChoice j (.member k d)

/-- The message after all assignments in front of the first failure, in order. -/
def assignAll (as : List (Option Assignment)) (m : Message) : Message :=
  (as.takeWhile Option.isSome).reduceOption.foldl Assignment.put m

/-- Where nothing fails, every assignment is made. -/
theorem assignAll_eq_foldl {as : List (Option Assignment)} (h : as.all Option.isSome = true)
    (m : Message) : assignAll as m = as.reduceOption.foldl Assignment.put m := by
  rw [assignAll, List.takeWhile_eq_self_iff.2 (List.all_eq_true.1 h)]

/-- The entries with those that keys and values make added in turn. The last of each key stands. -/
def addEntries (pairs entries : List (MapKey × Datum)) : List (MapKey × Datum) :=
  pairs.foldl (fun es e => (insertEntry e.1 e.2 es).1) entries

/-- What a value does to the field that it is for, given what it converts to as a single value, as a
list and as the entries of a map. -/
def Slot.assignment? (datum? : Kind → Option Datum) (elements? : Kind → Option (List Datum))
    (entries? : KeyKind → Kind → Option (List (MapKey × Datum))) : Slot → Option Assignment
  | .member j k f => (datum? f.kind).map (.member j k)
  | .plain i f =>
    match f.cardinality with
    | .singular => (datum? f.kind).map fun d => .plain i (.single d)
    | .list => (elements? f.kind).map fun ds => .plain i (.list ds)
    | .map keyKind => (entries? keyKind f.kind).map fun es => .plain i (.map es)

/-- What must hold for the value of a field to be read, given what must hold for a single value, a
list and a map. -/
def Slot.Reads (datum elements entries : Kind → Prop) : Slot → Prop
  | .member _ _ f => datum f.kind
  | .plain _ f =>
    match f.cardinality with
    | .singular => datum f.kind
    | .list => elements f.kind
    | .map _ => entries f.kind

section

variable {datum elements entries : Kind → Prop} {i : Nat} {f : Field}

theorem Slot.reads_singular (hf : f.cardinality = .singular) :
    (Slot.plain i f).Reads datum elements entries ↔ datum f.kind := by
  rw [Slot.Reads, hf]

theorem Slot.reads_list (hf : f.cardinality = .list) :
    (Slot.plain i f).Reads datum elements entries ↔ elements f.kind := by
  rw [Slot.Reads, hf]

theorem Slot.reads_map {keyKind : KeyKind} (hf : f.cardinality = .map keyKind) :
    (Slot.plain i f).Reads datum elements entries ↔ entries f.kind := by
  rw [Slot.Reads, hf]

theorem Slot.reads_of_forall (hd : ∀ kind, datum kind) (hl : ∀ kind, elements kind)
    (hm : ∀ kind, entries kind) (slot : Slot) : slot.Reads datum elements entries := by
  cases slot with
  | member j k f => exact hd f.kind
  | plain i f =>
    cases hf : f.cardinality with
    | singular => exact (reads_singular hf).2 (hd f.kind)
    | list => exact (reads_list hf).2 (hl f.kind)
    | map keyKind => exact (reads_map hf).2 (hm f.kind)

end

namespace Grammar

variable {ν σ : Type} [Quotation σ]

section Meaning

variable [Numeral ν]

mutual

/-- The value of a kind that a text converts to, where `depth` containers are open around it. A
message starts out with no field set. -/
def Tree.datum? (schema : Schema) (options : ReadOptions) (depth : Nat) (kind : Kind)
    (t : Tree ν σ) : Option Datum :=
  match kind with
  | .bool => t.bool?.map .bool
  | .integer k => (t.number?.bind (Numeral.integer? k)).map .integer
  | .float32 => (t.number?.bind (Numeral.binary? .single)).map .float32
  | .float64 => (t.number?.bind (Numeral.binary? .double)).map .float64
  | .string => (t.string?.bind (Quotation.text? options.decodeEscapes)).map .string
  | .bytes => (t.string?.bind (Quotation.bytes? options.decodeBase64)).map .bytes
  | .enumeration i =>
    ((t.enumReference? options.decodeEscapes).bind (resolve? (schema.enumType i))).map
      fun v => .enumeration v.number
  | .message i =>
    match t with
    | .object _ members =>
      if depth < Reader.maxDepth ∧
          (members.assignments schema options (depth + 1) i).all Option.isSome then
        some (.message (assignAll (members.assignments schema options (depth + 1) i)
          (schema.emptyMessage i)))
      else none
    | _ => none

/-- The list of values of a kind that a text converts to. -/
def Tree.elements? (schema : Schema) (options : ReadOptions) (depth : Nat) (kind : Kind)
    (t : Tree ν σ) : Option (List Datum) :=
  match t with
  | .array _ items =>
    if depth < Reader.maxDepth then items.data? schema options (depth + 1) kind else none
  | _ => none

/-- The entries of a map that a text converts to. -/
def Tree.entries? (schema : Schema) (options : ReadOptions) (depth : Nat) (keyKind : KeyKind)
    (kind : Kind) (t : Tree ν σ) : Option (List (MapKey × Datum)) :=
  match t with
  | .object _ members =>
    if depth < Reader.maxDepth then
      (members.pairs? schema options (depth + 1) keyKind kind).map (addEntries · [])
    else none
  | _ => none

/-- The values that items convert to. -/
def Items.data? (schema : Schema) (options : ReadOptions) (depth : Nat) (kind : Kind) :
    Items ν σ → Option (List Datum)
  | .nil => some []
  | .cons _ v _ rest =>
    (v.datum? schema options depth kind).bind fun d =>
      (rest.data? schema options depth kind).map (d :: ·)

/-- The keys and values that members convert to, in order. -/
def Members.pairs? (schema : Schema) (options : ReadOptions) (depth : Nat) (keyKind : KeyKind)
    (kind : Kind) : Members ν σ → Option (List (MapKey × Datum))
  | .nil => some []
  | .cons _ key _ _ v _ rest =>
    (Quotation.key? options.decodeEscapes keyKind key).bind fun k =>
      (v.datum? schema options depth kind).bind fun d =>
        (rest.pairs? schema options depth keyKind kind).map ((k, d) :: ·)

/-- What members do to a message of a type, in order. A member with an unknown key does nothing. -/
def Members.assignments (schema : Schema) (options : ReadOptions) (depth : Nat) (index : Nat) :
    Members ν σ → List (Option Assignment)
  | .nil => []
  | .cons _ key _ _ v _ rest =>
    match Quotation.text? options.decodeEscapes key with
    | none => none :: rest.assignments schema options depth index
    | some key =>
      match (schema.messageType index).slot? key with
      | none => rest.assignments schema options depth index
      | some slot =>
        slot.assignment? (fun kind => v.datum? schema options depth kind)
          (fun kind => v.elements? schema options depth kind)
          (fun keyKind kind => v.entries? schema options depth keyKind kind)
          :: rest.assignments schema options depth index

end

/-- What a value does to the field that it is for. -/
def Tree.assignment? (schema : Schema) (options : ReadOptions) (depth : Nat) (slot : Slot)
    (t : Tree ν σ) : Option Assignment :=
  slot.assignment? (t.datum? schema options depth) (t.elements? schema options depth)
    (t.entries? schema options depth)

/-! ## Members one by one -/

variable {schema : Schema} {options : ReadOptions} {depth index : Nat} {before : Blanks} {key : σ}
  {afterKey beforeValue : Blanks} {v : Tree ν σ} {after : Blanks} {rest : Members ν σ}

theorem Members.assignments_bad (hkey : Quotation.text? options.decodeEscapes key = none) :
    (Members.cons before key afterKey beforeValue v after rest).assignments schema options depth
      index = none :: rest.assignments schema options depth index := by
  rw [Members.assignments, hkey]

theorem Members.assignments_unknown {name : String}
    (hkey : Quotation.text? options.decodeEscapes key = some name)
    (hslot : (schema.messageType index).slot? name = none) :
    (Members.cons before key afterKey beforeValue v after rest).assignments schema options depth
      index = rest.assignments schema options depth index := by
  rw [Members.assignments, hkey]
  dsimp only
  rw [hslot]

theorem Members.assignments_known {name : String} {slot : Slot}
    (hkey : Quotation.text? options.decodeEscapes key = some name)
    (hslot : (schema.messageType index).slot? name = some slot) :
    (Members.cons before key afterKey beforeValue v after rest).assignments schema options depth
      index = v.assignment? schema options depth slot
        :: rest.assignments schema options depth index := by
  rw [Members.assignments, hkey]
  dsimp only
  rw [hslot]
  rfl

end Meaning

/-! ## Values that are skipped -/

section Skipping

mutual

/-- The values that are skipped when a value of a kind is read all have the property `p`. -/
def Tree.DatumSkips (p : Tree ν σ → Prop) (schema : Schema) (options : ReadOptions) (kind : Kind)
    (t : Tree ν σ) : Prop :=
  match kind with
  | .message i =>
    match t with
    | .object _ members => members.Skip p schema options i
    | _ => True
  | _ => True

/-- The values that are skipped when a list is read. -/
def Tree.ElementsSkip (p : Tree ν σ → Prop) (schema : Schema) (options : ReadOptions) (kind : Kind)
    (t : Tree ν σ) : Prop :=
  match t with
  | .array _ items => items.Skip p schema options kind
  | _ => True

/-- The values that are skipped when a map is read. -/
def Tree.EntriesSkip (p : Tree ν σ → Prop) (schema : Schema) (options : ReadOptions) (kind : Kind)
    (t : Tree ν σ) : Prop :=
  match t with
  | .object _ members => members.PairsSkip p schema options kind
  | _ => True

/-- The values that are skipped when items are read. -/
def Items.Skip (p : Tree ν σ → Prop) (schema : Schema) (options : ReadOptions) (kind : Kind) :
    Items ν σ → Prop
  | .nil => True
  | .cons _ v _ rest => v.DatumSkips p schema options kind ∧ rest.Skip p schema options kind

/-- The values that are skipped when the members of a map are read. -/
def Members.PairsSkip (p : Tree ν σ → Prop) (schema : Schema) (options : ReadOptions)
    (kind : Kind) : Members ν σ → Prop
  | .nil => True
  | .cons _ _ _ _ v _ rest =>
    v.DatumSkips p schema options kind ∧ rest.PairsSkip p schema options kind

/-- The values that are skipped when the members of a message are read: those of unknown keys, and
those that are skipped within the others. -/
def Members.Skip (p : Tree ν σ → Prop) (schema : Schema) (options : ReadOptions) (index : Nat) :
    Members ν σ → Prop
  | .nil => True
  | .cons _ key _ _ v _ rest =>
    (match Quotation.text? options.decodeEscapes key with
      | none => True
      | some key =>
        match (schema.messageType index).slot? key with
        | none => p v
        | some slot =>
          slot.Reads (fun kind => v.DatumSkips p schema options kind)
            (fun kind => v.ElementsSkip p schema options kind)
            (fun kind => v.EntriesSkip p schema options kind)) ∧
      rest.Skip p schema options index

end

/-- The values that are skipped when the value of a field is read. -/
def Tree.Skips (p : Tree ν σ → Prop) (schema : Schema) (options : ReadOptions) (slot : Slot)
    (t : Tree ν σ) : Prop :=
  slot.Reads (t.DatumSkips p schema options) (t.ElementsSkip p schema options)
    (t.EntriesSkip p schema options)

variable {p : Tree ν σ → Prop} {schema : Schema} {options : ReadOptions} {index : Nat}
  {before : Blanks} {key : σ} {afterKey beforeValue : Blanks} {v : Tree ν σ} {after : Blanks}
  {rest : Members ν σ}

theorem Members.Skip.unknown {name : String}
    (h : (Members.cons before key afterKey beforeValue v after rest).Skip p schema options index)
    (hkey : Quotation.text? options.decodeEscapes key = some name)
    (hslot : (schema.messageType index).slot? name = none) : p v := by
  have hv := h.1
  rw [hkey] at hv
  dsimp only at hv
  rwa [hslot] at hv

theorem Members.Skip.known {name : String} {slot : Slot}
    (h : (Members.cons before key afterKey beforeValue v after rest).Skip p schema options index)
    (hkey : Quotation.text? options.decodeEscapes key = some name)
    (hslot : (schema.messageType index).slot? name = some slot) :
    v.Skips p schema options slot := by
  have hv := h.1
  rw [hkey] at hv
  dsimp only at hv
  rwa [hslot] at hv

theorem Members.skip_known {name : String} {slot : Slot}
    (hkey : Quotation.text? options.decodeEscapes key = some name)
    (hslot : (schema.messageType index).slot? name = some slot)
    (hv : v.Skips p schema options slot) (hrest : rest.Skip p schema options index) :
    (Members.cons before key afterKey beforeValue v after rest).Skip p schema options index := by
  refine ⟨?_, hrest⟩
  rw [hkey]
  dsimp only
  rw [hslot]
  exact hv

theorem Members.Skip.tail
    (h : (Members.cons before key afterKey beforeValue v after rest).Skip p schema options index) :
    rest.Skip p schema options index := h.2

mutual

theorem Tree.datumSkips_of_forall (hp : ∀ t, p t) (kind : Kind) (t : Tree ν σ) :
    t.DatumSkips p schema options kind := by
  cases kind with
  | message i =>
    cases t with
    | object pad members => exact Members.skip_of_forall hp i members
    | _ => simp [Tree.DatumSkips]
  | _ => simp [Tree.DatumSkips]

theorem Tree.elementsSkip_of_forall (hp : ∀ t, p t) (kind : Kind) (t : Tree ν σ) :
    t.ElementsSkip p schema options kind := by
  cases t with
  | array pad items => exact Items.skip_of_forall hp kind items
  | _ => trivial

theorem Tree.entriesSkip_of_forall (hp : ∀ t, p t) (kind : Kind) (t : Tree ν σ) :
    t.EntriesSkip p schema options kind := by
  cases t with
  | object pad members => exact Members.pairsSkip_of_forall hp kind members
  | _ => trivial

theorem Items.skip_of_forall (hp : ∀ t, p t) (kind : Kind) (items : Items ν σ) :
    items.Skip p schema options kind := by
  cases items with
  | nil => trivial
  | cons before v after rest =>
    exact ⟨Tree.datumSkips_of_forall hp kind v, Items.skip_of_forall hp kind rest⟩

theorem Members.pairsSkip_of_forall (hp : ∀ t, p t) (kind : Kind) (members : Members ν σ) :
    members.PairsSkip p schema options kind := by
  cases members with
  | nil => trivial
  | cons before key afterKey beforeValue v after rest =>
    exact ⟨Tree.datumSkips_of_forall hp kind v, Members.pairsSkip_of_forall hp kind rest⟩

/-- Nothing is asked of the values that are skipped if all values have the property. -/
theorem Members.skip_of_forall (hp : ∀ t, p t) (index : Nat) (members : Members ν σ) :
    members.Skip p schema options index := by
  cases members with
  | nil => trivial
  | cons before key afterKey beforeValue v after rest =>
    refine ⟨?_, Members.skip_of_forall hp index rest⟩
    split
    · trivial
    · split
      · exact hp v
      · apply Slot.reads_of_forall
        · exact fun kind => Tree.datumSkips_of_forall hp kind v
        · exact fun kind => Tree.elementsSkip_of_forall hp kind v
        · exact fun kind => Tree.entriesSkip_of_forall hp kind v

end

end Skipping

end Grammar

end ProtoJson
