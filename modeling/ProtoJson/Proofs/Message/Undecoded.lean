import ProtoJson.Proofs.Message.Layout

/-!
# Messages that are read without decoding

With the default options escapes and base64 texts are read as they stand. A message that is written
and read back so has other strings and bytes than it had, but it keeps its shape: all its members,
and as many elements and entries, down to the messages within it.
-/

namespace ProtoJson

open Grammar

section Undecoded

variable {schema : Schema} {o : ReadOptions}

/-! ## Fields that are read back -/

namespace Message

theorem plain_readBack (m : Message) :
    (m.asRead o).normal.plain = m.plain.map fun c => (c.asRead o).normal := by
  obtain ⟨plain, choices⟩ := m
  show normalPlain (plainAsRead o plain) = _
  rw [normalPlain_eq_map, plainAsRead_eq_map, List.map_map]
  rfl

theorem choices_readBack (m : Message) :
    (m.asRead o).normal.choices = m.choices.map (Choice.map fun d => (d.asRead o).normal) := by
  obtain ⟨plain, choices⟩ := m
  show normalChoices (choicesAsRead o choices) = _
  rw [normalChoices_eq_map, choicesAsRead_eq_map, List.map_map]
  apply List.map_congr_left
  intro c _
  cases c <;> rfl

end Message

theorem Choice.active?_map (g : Datum → Datum) (members : List Field) (c : Choice) :
    (c.map g).active? members = (c.active? members).map (Prod.map id g) := by
  cases c with
  | unset => rfl
  | member k d =>
    rw [Choice.map, active?, active?, Option.map_map]
    rfl

/-- The same fields are written of what is read back. -/
theorem Message.writtenFields_readBack (index : Nat) (m : Message) :
    (m.asRead o).normal.writtenFields schema index = m.writtenFields schema index := by
  have hplain : ((m.asRead o).normal.writtenPlain schema index).map Prod.fst
      = (m.writtenPlain schema index).map Prod.fst := by
    rw [writtenPlain, writtenPlain, plain_readBack, List.zip_map_right, List.filter_map,
      List.map_map]
    simp [Function.comp_def]
  have hactive : ((m.asRead o).normal.activeMembers schema index).map Prod.fst
      = (m.activeMembers schema index).map Prod.fst := by
    rw [activeMembers, activeMembers, choices_readBack, List.zipIdx_map, List.filterMap_map,
      List.map_filterMap, List.map_filterMap]
    simp [Function.comp_def, Choice.active?_map]
  rw [writtenFields, writtenFields, hplain, hactive]

/-- The entries that are read back of a map are those that were written, with their keys and values
as they are read. -/
theorem Content.entries_readBack {f : Field} {es : List (MapKey × Datum)}
    (h : (Content.map es).OfField schema f) :
    ∃ es', ((Content.map es).asRead o).normal = .map es' ∧
      es'.Perm (es.map fun e => (e.1.asRead o, (e.2.asRead o).normal)) ∧
      (es'.map Prod.fst).Nodup := by
  have hread := asRead_ofField (o := o) f (.map es) h
  obtain ⟨kind, -, hes, hkeys⟩ := hread
  rw [entriesOfKind_iff] at hes
  have hnormal : normalEntries (entriesAsRead o es)
      = es.map fun e => (e.1.asRead o, (e.2.asRead o).normal) := by
    rw [normalEntries_eq_map, entriesAsRead_eq_map, List.map_map]
    rfl
  have hfst : (normalEntries (entriesAsRead o es)).map Prod.fst
      = (entriesAsRead o es).map Prod.fst := by
    rw [normalEntries_eq_map, List.map_map, Prod.map_fst']
    rfl
  have hkind : ∀ e ∈ normalEntries (entriesAsRead o es), e.1.OfKind kind := by
    intro e he
    rw [normalEntries_eq_map] at he
    obtain ⟨e', he', rfl⟩ := List.mem_map.1 he
    exact (hes e' he').1
  -- The entries are sorted by the keys as they are read, which may stand in another order.
  obtain ⟨hascending, hperm⟩ := sortEntries_spec hkind (hfst ▸ hkeys)
  exact ⟨_, rfl, hnormal ▸ hperm, hascending.nodup⟩

/-! ## Places that are read back -/

/-- A step as it is read: a key may be read as another text. -/
def Grammar.Step.asRead (o : ReadOptions) : Step → Step
  | .member key => .member (o.stringOf key)
  | .item index => .item index

theorem MapKey.text_asRead {kind : KeyKind} {key : MapKey} (h : key.OfKind kind) :
    (key.asRead o).text = o.stringOf key.text := by
  have hself : kind ≠ .string → o.stringOf key.text = key.text :=
    fun hkind => o.stringOf_eq_self (escape_text h hkind)
  cases key with
  | string s => rfl
  | bool v => exact (hself (by rw [show kind = .bool from h]; decide)).symm
  | integer v =>
    obtain ⟨k, hk, -⟩ := id h
    exact (hself (by rw [hk]; simp)).symm

/-- A message within a field is read back at its place. -/
theorem Content.Holds.readBack {f : Field} {c : Content} {path : List Step} {m : Message}
    (hc : c.OfField schema f) (h : c.Holds path (.message m)) :
    (c.asRead o).normal.Holds (path.map (Step.asRead o)) (.message (m.asRead o).normal) := by
  cases h with
  | single => exact .single _
  | @element ds i d hd =>
    apply Holds.element
    rw [elementsAsRead_eq_map, normalElements_eq_map, List.getElem?_map, List.getElem?_map, hd]
    rfl
  | @entry es key d hd =>
    obtain ⟨es', heq, hperm, -⟩ := entries_readBack (o := o) hc
    obtain ⟨kind, -, hes, -⟩ := hc
    rw [entriesOfKind_iff] at hes
    have hmem : (key.asRead o, Datum.message (m.asRead o).normal) ∈ es' :=
      hperm.mem_iff.2 (List.mem_map_of_mem hd)
    rw [heq, List.map_cons, List.map_nil, Step.asRead, ← MapKey.text_asRead (hes _ hd).1]
    exact .entry hmem

namespace Message

/-- A message within a message is read back at its place. -/
theorem Holds.readBack (ho : schema.NamesRead o) {index i : Nat} {m x : Message}
    {path : List Step} (h : m.Holds schema index path i x) (hm : m.OfType schema index) :
    (m.asRead o).normal.Holds schema index (path.map (Step.asRead o)) i (x.asRead o).normal := by
  induction h with
  | self => exact .self _ _
  | @plain index k j i m m' x f c inner path hf hc hd hkind hx ih =>
    have hfield := plain_ofField hm hf hc
    have hm' : m'.OfType schema j := (tree_datum hkind (Content.at?_tree hfield hd).2).2
    have hname : o.stringOf f.jsonName = f.jsonName :=
      ho.field (MessageType.of_plainFields hf).1
    have hc' : (m.asRead o).normal.plain[k]? = some (c.asRead o).normal := by
      rw [plain_readBack, List.getElem?_map, hc, Option.map_some]
    rw [List.map_cons, List.map_append, Step.asRead, hname]
    exact .plain hf hc' (hd.readBack hfield) hkind (ih hm')
  | @active index n k j i m m' x f path hc hf hkind hx ih =>
    obtain ⟨f', hf', hof⟩ := choice_ofMembers hm hc
    obtain rfl : f = f' := Option.some.inj (hf.symm.trans hf')
    have hm' : m'.OfType schema j := (tree_datum hkind hof).2
    have hname : o.stringOf f.jsonName = f.jsonName := ho.field (MessageType.of_members hf).1
    have hc' : (m.asRead o).normal.choices[n]?
        = some (.member k (.message (m'.asRead o).normal)) := by
      rw [choices_readBack, List.getElem?_map, hc]
      rfl
    rw [List.map_cons, Step.asRead, hname]
    exact .active hc' hf hkind (ih hm')

/-- `m'` has the shape of `m`, with other strings: the same members, lists of the same length, and
one entry for each entry of a map. -/
structure KeepsShape (schema : Schema) (o : ReadOptions) (index : Nat) (m m' : Message) : Prop where
  members : m'.writtenNames schema index = m.writtenNames schema index
  elements : ∀ (k : Nat) (ds : List Datum), m.plain[k]? = some (.list ds) →
    ∃ ds', m'.plain[k]? = some (.list ds') ∧ ds'.length = ds.length
  entries : ∀ (k : Nat) (es : List (MapKey × Datum)), m.plain[k]? = some (.map es) →
    ∃ es', m'.plain[k]? = some (.map es') ∧
      (es'.map Prod.fst).Perm (es.map fun e => e.1.asRead o) ∧ (es'.map Prod.fst).Nodup

theorem keepsShape_readBack {index : Nat} {m : Message} (hm : m.OfType schema index) :
    m.KeepsShape schema o index (m.asRead o).normal where
  members := by rw [writtenNames, writtenFields_readBack, writtenNames]
  elements k ds hds := by
    refine ⟨normalElements (elementsAsRead o ds), ?_, ?_⟩
    · rw [plain_readBack, List.getElem?_map, hds]
      rfl
    · rw [normalElements_eq_map, elementsAsRead_eq_map, List.length_map, List.length_map]
  entries k es hes := by
    have hlt : k < (schema.messageType index).plainFields.length := by
      rw [← ((ofType_iff index m).1 hm).1.1]
      exact (List.getElem?_eq_some_iff.1 hes).1
    obtain ⟨es', heq, hperm, hnodup⟩ := Content.entries_readBack (o := o)
      (plain_ofField hm (List.getElem?_eq_getElem hlt) hes)
    refine ⟨es', ?_, ?_, hnodup⟩
    · rw [plain_readBack, List.getElem?_map, hes, Option.map_some, heq]
    · have hkeys := hperm.map Prod.fst
      rwa [List.map_map] at hkeys

end Message

end Undecoded

/-! ## The example schema -/

namespace Example

/-- No name of the schema needs an escape. -/
theorem schema_namesRead (o : ReadOptions) : schema.NamesRead o where
  fields type htype f hf := by
    have hplain : ∀ type ∈ schema.messages, ∀ f ∈ type.fields,
        Escape.escape f.jsonName.toList = f.jsonName.toList := by decide +kernel
    exact o.stringOf_eq_self (hplain type htype f hf)
  values e he v hv := by
    have hplain : ∀ e ∈ schema.enums, ∀ v ∈ e.values,
        Escape.escape v.name.toList = v.name.toList := by decide +kernel
    exact o.stringOf_eq_self (hplain e he v hv)

/-- Every message of the schema, with finite numbers and at most 128 levels of messages, is read
back with the default options: its strings as they were written, its bytes as the base64 texts, and
its plain fields with positive zeros. No member is lost, and no two entries of a map merge, in it or
in a message within it. -/
theorem unmarshal_marshal_undecoded (name : MessageName) {ps : Pools} (hps : ps.Reachable schema)
    {x : Message} (hx : x.OfType schema name.index) (hfinite : x.Finite)
    (hlevels : x.levels ≤ Reader.maxDepth) (buffers : Pool Buffer) :
    (∃ st, schema.unmarshal name.index (schema.marshal name.index x buffers).1 {}
        (ps.acquire schema name.index).1 (ps.acquire schema name.index).2
        = (.ok (), (x.asRead {}).normal, st) ∧
      st.reader.rest = [] ∧
      st.reader.offset = (schema.marshal name.index x buffers).1.length) ∧
    ∀ path i y, x.Holds schema name.index path i y →
      (x.asRead {}).normal.Holds schema name.index (path.map (Step.asRead {})) i
        (y.asRead {}).normal ∧
      y.KeepsShape schema {} i (y.asRead {}).normal := by
  refine ⟨Schema.unmarshal_marshal_asRead schema_distinct (schema_namesRead {}) hps hx hfinite
    (depth_le name hx hlevels) buffers, fun path i y hy => ⟨?_, ?_⟩⟩
  · exact hy.readBack (schema_namesRead {}) hx
  · exact Message.keepsShape_readBack (Message.at?_tree schema_distinct hy hx).2

/-- Two keys of a map, one of which is how the other is written, stay apart. -/
theorem unmarshal_marshal_undecoded_keys :
    ∃ x : Message, x.OfType schema MessageName.exampleMsg.index ∧ x.Finite ∧
      x.levels ≤ Reader.maxDepth ∧
      x.plain[16]? = some (.map [(.string "\"", .string "\n"), (.string "\\\"", .string "")]) ∧
      (x.asRead {}).normal.plain[16]?
        = some (.map [(.string "\\\"", .string "\\n"), (.string "\\\\\\\"", .string "")]) ∧
      ∃ st, schema.unmarshal MessageName.exampleMsg.index
          (schema.marshal MessageName.exampleMsg.index x .empty).1 {}
          ((Pools.ofSchema schema).acquire schema MessageName.exampleMsg.index).1
          ((Pools.ofSchema schema).acquire schema MessageName.exampleMsg.index).2
          = (.ok (), (x.asRead {}).normal, st) := by
  have hps : (Pools.ofSchema schema).Reachable schema :=
    .start _ (by simp [Pools.ofSchema, Pool.empty, Pool.withCapacity])
  have hfield : (schema.messageType MessageName.exampleMsg.index).plainFields[16]?
      = some ⟨"string_map", "stringMap", .string, .map .string, none⟩ := rfl
  have hcontent : (Content.map
      [(.string "\"", .string "\n"), (.string "\\\"", .string "")]).OfField schema
        ⟨"string_map", "stringMap", .string, .map .string, none⟩ :=
    ⟨.string, rfl, ⟨rfl, rfl, rfl, rfl, trivial⟩, by decide⟩
  have hx := Message.setPlain_ofType (Schema.emptyMessage_ofType _) hfield hcontent
  have hfinite : ((schema.emptyMessage MessageName.exampleMsg.index).setPlain 16
      (.map [(.string "\"", .string "\n"), (.string "\\\"", .string "")])).Finite :=
    ⟨⟨trivial, trivial, trivial, trivial, trivial, trivial, rfl, rfl, trivial, trivial, trivial,
      trivial, trivial, trivial, trivial, trivial, ⟨trivial, trivial, trivial⟩, trivial, trivial,
      trivial, trivial, trivial, trivial⟩, trivial⟩
  have hkeys : sortEntries
      [(.string (writtenText "\""), .string (writtenText "\n")),
        (.string (writtenText "\\\""), .string (writtenText ""))]
      = [(.string "\\\"", .string "\\n"), (.string "\\\\\\\"", .string "")] := by
    simp only [writtenText_eq]
    rfl
  obtain ⟨⟨st, hread, -⟩, -⟩ := unmarshal_marshal_undecoded .exampleMsg hps hx hfinite (by decide)
    .empty
  exact ⟨_, hx, hfinite, by decide, rfl, congrArg (some ∘ Content.map) hkeys, st, hread⟩

end Example

end ProtoJson
