import Mathlib.Data.List.Sigma
import ProtoJson.Proofs.Message.RoundTrip

/-!
# Where everything in a message stands in its text

A message is written as an object whose keys are the JSON names of the fields that are not left out.
What a field holds stands at its name, and so does every message within it: the text of a message
holds the texts of its messages at the places where the message holds them.
-/

namespace ProtoJson

open Grammar

/-! ## Places in a text -/

namespace Grammar

/-- The keys and values of the members, in order. -/
def Members.entries : Members NumberLiteral StringLiteral → List (String × Json)
  | .nil => []
  | .cons _ key _ _ v _ rest => (key.meaning, v) :: rest.entries

/-- The values of the items, in order. -/
def Items.values : Items NumberLiteral StringLiteral → List Json
  | .nil => []
  | .cons _ v _ rest => v :: rest.values

@[simp] theorem Members.entries_bare (key : String) (v : Json)
    (rest : Members NumberLiteral StringLiteral) :
    (Members.bare key v rest).entries = (key, v) :: rest.entries := by
  rw [Members.bare, entries, StringLiteral.meaning_ofString]

@[simp] theorem Items.values_bare (v : Json) (rest : Items NumberLiteral StringLiteral) :
    (Items.bare v rest).values = v :: rest.values := rfl

/-- A step from a container to what it holds. -/
inductive Step where
  | member (key : String)
  | item (index : Nat)
  deriving DecidableEq, Repr

/-- What stands one step within a value. -/
def Tree.child? : Step → Json → Option Json
  | .member key, .object _ members => (members.entries.find? (·.1 == key)).map Prod.snd
  | .item index, .array _ items => items.values[index]?
  | _, _ => none

/-- What stands at a path within a value. -/
def Tree.at? (t : Json) (path : List Step) : Option Json :=
  path.foldlM (fun t step => t.child? step) t

theorem Tree.at?_cons {t v : Json} {step : Step} (h : t.child? step = some v)
    (path : List Step) : t.at? (step :: path) = v.at? path := by
  rw [at?, List.foldlM_cons, h]
  rfl

theorem Tree.at?_append {t v : Json} {path : List Step} (h : t.at? path = some v)
    (path' : List Step) : t.at? (path ++ path') = v.at? path' := by
  rw [at?, List.foldlM_append, show path.foldlM _ t = some v from h]
  rfl

/-- A key that occurs once leads to its value. -/
theorem Tree.child?_member {members : Members NumberLiteral StringLiteral} {key : String} {v : Json}
    (pad : Blanks) (hkeys : (members.entries.map Prod.fst).Nodup)
    (h : (key, v) ∈ members.entries) :
    (Tree.object pad members : Json).child? (.member key) = some v := by
  obtain ⟨k, hk⟩ := List.mem_iff_getElem?.1 h
  rw [child?, (find?_of_getElem? hkeys hk).1, Option.map_some]

end Grammar

/-! ## The fields that are written -/

/-- The member that a oneof holds, and its value. -/
def Choice.active? (members : List Field) : Choice → Option (Field × Datum)
  | .unset => none
  | .member k d => members[k]?.map fun f => (f, d)

namespace Message

/-- The plain fields of a message that are not empty, and what they hold, in the order of their
declaration. -/
def writtenPlain (schema : Schema) (index : Nat) (m : Message) : List (Field × Content) :=
  ((schema.messageType index).plainFields.zip m.plain).filter fun e => !e.2.isEmpty

/-- The members that the oneofs of a message hold, and their values. -/
def activeMembers (schema : Schema) (index : Nat) (m : Message) : List (Field × Datum) :=
  m.choices.zipIdx.filterMap fun e => e.1.active? ((schema.messageType index).members e.2)

/-- The fields of a message that its text has. -/
def writtenFields (schema : Schema) (index : Nat) (m : Message) : List Field :=
  (m.writtenPlain schema index).map Prod.fst ++ (m.activeMembers schema index).map Prod.fst

/-- The JSON names of the fields that are written. -/
def writtenNames (schema : Schema) (index : Nat) (m : Message) : List String :=
  (m.writtenFields schema index).map (·.jsonName)

end Message

section Layout

variable {schema : Schema}

theorem entries_plainMembers (rest : Members NumberLiteral StringLiteral) (cs : List Content)
    (fs : List Field) :
    (plainMembers schema rest cs fs).entries
      = ((fs.zip cs).filter fun e => !e.2.isEmpty).map
          (fun e => (e.1.jsonName, e.2.tree schema e.1.kind)) ++ rest.entries := by
  induction cs generalizing fs with
  | nil => simp [plainMembers]
  | cons c cs ih =>
    cases fs with
    | nil => simp [plainMembers]
    | cons f fs =>
      rw [plainMembers, List.zip_cons_cons]
      cases hempty : c.isEmpty with
      | true => simp [ih, hempty]
      | false => simp [ih, hempty]

theorem entries_choiceMembers (type : MessageType) (cs : List Choice) (index : Nat) :
    (choiceMembers schema type cs index).entries
      = ((cs.zipIdx index).filterMap fun e => e.1.active? (type.members e.2)).map
          fun e => (e.1.jsonName, e.2.tree schema e.1.kind) := by
  induction cs generalizing index with
  | nil => simp [choiceMembers, Members.entries]
  | cons c cs ih =>
    rw [List.zipIdx_cons]
    cases c with
    | unset => simp [choiceMembers, Choice.active?, ih]
    | member k d =>
      rw [choiceMembers]
      cases hf : (type.members index)[k]? with
      | none => simp [Choice.active?, hf, ih]
      | some f => simp [Choice.active?, hf, ih]

/-- A member that is active belongs to the oneof that holds it. -/
theorem Choice.oneof_of_active? {type : MessageType} {c : Choice} {j : Nat} {a : Field × Datum}
    (h : c.active? (type.members j) = some a) :
    a.1 ∈ type.fields ∧ a.1.oneof = some j := by
  cases c with
  | unset => cases h
  | member k d =>
    obtain ⟨f, hf, rfl⟩ := Option.map_eq_some_iff.1 h
    exact MessageType.of_members hf

namespace Message

/-- The plain fields that are written are those that are not reported to be empty. -/
theorem names_writtenPlain (index : Nat) (m : Message) :
    (m.writtenPlain schema index).map (·.1.name)
      = ((schema.emptiness index m).filter fun e => !e.2).map Prod.fst := by
  rw [writtenPlain, Schema.emptiness, List.filter_map, List.map_map]
  rfl

/-- The members that are written for a message stand in the order of its fields. -/
theorem entries_members (index : Nat) (m : Message) :
    (m.members schema index).entries
      = (m.writtenPlain schema index).map (fun e => (e.1.jsonName, e.2.tree schema e.1.kind)) ++
        (m.activeMembers schema index).map
          fun e => (e.1.jsonName, e.2.tree schema e.1.kind) := by
  obtain ⟨plain, choices⟩ := m
  rw [members, entries_plainMembers, entries_choiceMembers]
  rfl

/-- The keys of a message are the names of the fields that are written. -/
theorem keys_members (index : Nat) (m : Message) :
    (m.members schema index).entries.map Prod.fst = m.writtenNames schema index := by
  rw [entries_members, writtenNames, writtenFields]
  simp [Function.comp_def]

/-! ## Each name once -/

variable {index : Nat} {m : Message}

/-- A plain field that is written is one of the type, and it belongs to no oneof. -/
theorem mem_writtenPlain {f : Field} (h : f ∈ (m.writtenPlain schema index).map Prod.fst) :
    f ∈ (schema.messageType index).fields ∧ f.oneof = none := by
  obtain ⟨e, he, rfl⟩ := List.mem_map.1 h
  have hzip := List.mem_of_mem_filter he
  obtain ⟨hfield, honeof⟩ := List.mem_filter.1 (List.of_mem_zip hzip).1
  exact ⟨hfield, Option.isNone_iff_eq_none.1 honeof⟩

theorem mem_activeMembers {f : Field} (h : f ∈ (m.activeMembers schema index).map Prod.fst) :
    f ∈ (schema.messageType index).fields ∧ ∃ j, f.oneof = some j := by
  obtain ⟨a, ha, rfl⟩ := List.mem_map.1 h
  obtain ⟨e, -, he⟩ := List.mem_filterMap.1 ha
  obtain ⟨hfield, honeof⟩ := Choice.oneof_of_active? he
  exact ⟨hfield, e.2, honeof⟩

/-- A oneof holds one member at most. -/
theorem nodup_activeMembers (index : Nat) (m : Message) :
    ((m.activeMembers schema index).map Prod.fst).Nodup := by
  have hplaces : m.choices.zipIdx.Pairwise fun e e' => e.2 ≠ e'.2 :=
    List.pairwise_map.1 (List.nodup_zipIdx_map_snd m.choices)
  apply List.pairwise_map.2
  apply hplaces.filterMap
  intro e e' hne a ha a' ha' heq
  -- One field for two oneofs would belong to both.
  have hj : a.1.oneof = some e.2 := (Choice.oneof_of_active? ha).2
  have hj' : a'.1.oneof = some e'.2 := (Choice.oneof_of_active? ha').2
  rw [heq, hj'] at hj
  exact hne (Option.some.inj hj).symm

/-- No field is written twice. -/
theorem nodup_writtenFields (hs : schema.Distinct) (hm : m.OfType schema index) :
    (m.writtenFields schema index).Nodup := by
  have hfields : (schema.messageType index).fields.Nodup := (hs.names index).of_map _
  have hlength : (schema.messageType index).plainFields.length ≤ m.plain.length :=
    le_of_eq ((Message.ofType_iff index m).1 hm).1.1.symm
  have hplain : (((schema.messageType index).plainFields.zip m.plain).map Prod.fst).Nodup := by
    rw [List.map_fst_zip hlength]
    exact hfields.filter _
  apply List.nodup_append.2
  refine ⟨hplain.sublist (List.filter_sublist.map _), nodup_activeMembers index m, ?_⟩
  intro f hf f' hf' heq
  have hnone : f.oneof = none := (mem_writtenPlain hf).2
  obtain ⟨-, j, hj⟩ := mem_activeMembers hf'
  rw [← heq, hnone] at hj
  cases hj

/-- No name is written twice. -/
theorem nodup_writtenNames (hs : schema.Distinct) (hm : m.OfType schema index) :
    (m.writtenNames schema index).Nodup := by
  have hmem : ∀ f ∈ m.writtenFields schema index, f ∈ (schema.messageType index).fields := by
    intro f hf
    rcases List.mem_append.1 hf with hf | hf
    · exact (mem_writtenPlain hf).1
    · exact (mem_activeMembers hf).1
  apply List.Nodup.map_on ?_ (nodup_writtenFields hs hm)
  intro f hf f' hf' heq
  exact List.inj_on_of_nodup_map (hs.names index) (hmem f hf) (hmem f' hf') heq

end Message

/-! ## Messages within messages -/

/-- The values that stand within what a field holds, and where. -/
inductive Content.Holds : Content → List Step → Datum → Prop where
  | single (d : Datum) : Holds (.single d) [] d
  | element {ds : List Datum} {i : Nat} {d : Datum} (hd : ds[i]? = some d) :
    Holds (.list ds) [.item i] d
  | entry {es : List (MapKey × Datum)} {key : MapKey} {d : Datum} (hd : (key, d) ∈ es) :
    Holds (.map es) [.member key.text] d

/-- The messages that stand within a message, itself included, their types, and where. -/
inductive Message.Holds (schema : Schema) : Nat → Message → List Step → Nat → Message → Prop where
  | self (index : Nat) (m : Message) : Holds schema index m [] index m
  | plain {index k j i : Nat} {m m' x : Message} {f : Field} {c : Content} {inner path : List Step}
    (hf : (schema.messageType index).plainFields[k]? = some f) (hc : m.plain[k]? = some c)
    (hd : c.Holds inner (.message m')) (hkind : f.kind = .message j)
    (hx : Holds schema j m' path i x) :
    Holds schema index m (.member f.jsonName :: (inner ++ path)) i x
  | active {index o k j i : Nat} {m m' x : Message} {f : Field} {path : List Step}
    (hc : m.choices[o]? = some (.member k (.message m')))
    (hf : ((schema.messageType index).members o)[k]? = some f) (hkind : f.kind = .message j)
    (hx : Holds schema j m' path i x) :
    Holds schema index m (.member f.jsonName :: path) i x

theorem values_elementItems (kind : Kind) (ds : List Datum) :
    (elementItems schema kind ds).values = ds.map (Datum.tree schema kind) := by
  induction ds with
  | nil => rfl
  | cons d ds ih => rw [elementItems, Items.values_bare, ih, List.map_cons]

theorem entries_entryMembers (kind : Kind) (es : List (MapKey × Datum)) :
    (entryMembers schema kind es).entries
      = es.map fun e => (e.1.text, e.2.tree schema kind) := by
  induction es with
  | nil => rfl
  | cons e es ih =>
    obtain ⟨key, d⟩ := e
    rw [entryMembers, Members.entries_bare, ih, List.map_cons]

/-- Keys of one kind differ in their texts. -/
theorem nodup_keyTexts {keyKind : KeyKind} {es : List (MapKey × Datum)}
    (hkind : ∀ e ∈ es, e.1.OfKind keyKind) (hkeys : (es.map Prod.fst).Nodup) :
    (es.map (MapKey.text ∘ Prod.fst)).Nodup := by
  rw [← List.map_map]
  apply List.Nodup.map_on ?_ hkeys
  intro key hkey key' hkey' heq
  obtain ⟨e, he, rfl⟩ := List.mem_map.1 hkey
  obtain ⟨e', he', rfl⟩ := List.mem_map.1 hkey'
  have hparse := MapKey.parse?_text (hkind e he)
  rw [heq, MapKey.parse?_text (hkind e' he')] at hparse
  exact (Option.some.inj hparse).symm

/-- A value within a field stands at the same place within the text of the field. -/
theorem Content.at?_tree {f : Field} {c : Content} {path : List Step} {d : Datum}
    (hc : c.OfField schema f) (h : c.Holds path d) :
    (c.tree schema f.kind).at? path = some (d.tree schema f.kind) ∧ d.OfKind schema f.kind := by
  cases h with
  | single => exact ⟨rfl, hc.2⟩
  | @element ds i d hd =>
    have hchild : (Content.tree schema f.kind (.list ds)).child? (.item i)
        = some (d.tree schema f.kind) := by
      rw [Content.tree, Tree.child?, values_elementItems, List.getElem?_map, hd, Option.map_some]
    have hkind := (elementsOfKind_iff f.kind ds).1 hc.2 d (List.mem_of_getElem? hd)
    exact ⟨Tree.at?_cons hchild [], hkind⟩
  | @entry es key d hd =>
    obtain ⟨keyKind, -, hes, hkeys⟩ := hc
    rw [entriesOfKind_iff] at hes
    have htexts : ((entryMembers schema f.kind es).entries.map Prod.fst).Nodup := by
      rw [entries_entryMembers, List.map_map]
      exact nodup_keyTexts (fun e he => (hes e he).1) hkeys
    have hmem : (key.text, d.tree schema f.kind) ∈ (entryMembers schema f.kind es).entries := by
      rw [entries_entryMembers]
      exact List.mem_map_of_mem hd
    exact ⟨Tree.at?_cons (Tree.child?_member .empty htexts hmem) [], (hes _ hd).2⟩

namespace Message

variable {index : Nat} {m : Message}

/-- What is written for a message is found by its name. -/
theorem child?_tree (hs : schema.Distinct) (hm : m.OfType schema index) {name : String} {v : Json}
    (h : (name, v) ∈ (m.members schema index).entries) :
    (m.tree schema index).child? (.member name) = some v := by
  apply Tree.child?_member .empty ?_ h
  rw [keys_members]
  exact nodup_writtenNames hs hm

/-- A plain field that is not empty is found by its name. -/
theorem child?_plain (hs : schema.Distinct) (hm : m.OfType schema index) {k : Nat} {f : Field}
    {c : Content} (hf : (schema.messageType index).plainFields[k]? = some f)
    (hc : m.plain[k]? = some c) (hne : c.isEmpty = false) :
    (m.tree schema index).child? (.member f.jsonName) = some (c.tree schema f.kind) := by
  apply child?_tree hs hm
  have hzip : (f, c) ∈ (schema.messageType index).plainFields.zip m.plain :=
    List.mem_of_getElem? (List.getElem?_zip_eq_some.2 ⟨hf, hc⟩)
  have hwritten : (f, c) ∈ m.writtenPlain schema index :=
    List.mem_filter.2 ⟨hzip, by rw [hne]; rfl⟩
  rw [entries_members]
  exact List.mem_append_left _ (List.mem_map.2 ⟨(f, c), hwritten, rfl⟩)

/-- The member that a oneof holds is found by its name. -/
theorem child?_active (hs : schema.Distinct) (hm : m.OfType schema index) {o k : Nat} {f : Field}
    {d : Datum} (hc : m.choices[o]? = some (.member k d))
    (hf : ((schema.messageType index).members o)[k]? = some f) :
    (m.tree schema index).child? (.member f.jsonName) = some (d.tree schema f.kind) := by
  apply child?_tree hs hm
  have hplace : (.member k d, o) ∈ m.choices.zipIdx := List.mem_zipIdx_iff_getElem?.2 hc
  have hactive : (f, d) ∈ m.activeMembers schema index := by
    apply List.mem_filterMap.2
    refine ⟨_, hplace, ?_⟩
    rw [Choice.active?, hf, Option.map_some]
  rw [entries_members]
  exact List.mem_append_right _ (List.mem_map.2 ⟨(f, d), hactive, rfl⟩)

/-- A message is written as a value of its kind. -/
theorem tree_datum {kind : Kind} {j : Nat} {x : Message} (hkind : kind = .message j)
    (hx : (Datum.message x).OfKind schema kind) :
    (Datum.message x).tree schema kind = x.tree schema j ∧ x.OfType schema j := by
  obtain ⟨i, hi, hof⟩ := hx
  obtain rfl : i = j := Kind.message.inj (hi.symm.trans hkind)
  subst hkind
  exact ⟨rfl, hof⟩

/-- A message within a message is of its type, and its text stands at the same place. -/
theorem at?_tree (hs : schema.Distinct) {i : Nat} {x : Message} {path : List Step}
    (h : m.Holds schema index path i x) (hm : m.OfType schema index) :
    (m.tree schema index).at? path = some (x.tree schema i) ∧ x.OfType schema i := by
  induction h with
  | self => exact ⟨rfl, hm⟩
  | plain hf hc hd hkind _ ih =>
    obtain ⟨hat, hof⟩ := Content.at?_tree (plain_ofField hm hf hc) hd
    obtain ⟨htree, hm'⟩ := tree_datum hkind hof
    rw [htree] at hat
    -- Nothing that holds a message is left out.
    have hchild := child?_plain hs hm hf hc (by cases hd <;> rfl)
    rw [Tree.at?_cons hchild, Tree.at?_append hat]
    exact ih hm'
  | active hc hf hkind _ ih =>
    obtain ⟨f', hf', hof⟩ := choice_ofMembers hm hc
    obtain rfl : _ = f' := Option.some.inj (hf.symm.trans hf')
    obtain ⟨htree, hm'⟩ := tree_datum hkind hof
    have hchild := child?_active hs hm hc hf
    rw [htree] at hchild
    rw [Tree.at?_cons hchild]
    exact ih hm'

end Message

/-! ## The text of a message -/

/-- In the text of a message, an object stands wherever the message holds a message. Its keys are
the names of the fields that are written, each once, and lists and maps that are present but empty
are written as such. -/
structure Grammar.Tree.LaysOut (schema : Schema) (index : Nat) (m : Message) (t : Json) : Prop where
  object : ∀ path i x, m.Holds schema index path i x → ∃ pad members,
    t.at? path = some (.object pad members) ∧
      members.entries.map Prod.fst = x.writtenNames schema i ∧ (x.writtenNames schema i).Nodup
  emptyList : ∀ path i x, m.Holds schema index path i x → ∀ (k : Nat) (f : Field),
    (schema.messageType i).plainFields[k]? = some f → x.plain[k]? = some (.list []) →
      ∃ v, t.at? (path ++ [.member f.jsonName]) = some v ∧ v.bytes = Utf8.ofString "[]"
  emptyMap : ∀ path i x, m.Holds schema index path i x → ∀ (k : Nat) (f : Field),
    (schema.messageType i).plainFields[k]? = some f → x.plain[k]? = some (.map []) →
      ∃ v, t.at? (path ++ [.member f.jsonName]) = some v ∧ v.bytes = Utf8.ofString "\x7b\x7d"

theorem Message.laysOut_tree {index : Nat} {m : Message} (hs : schema.Distinct)
    (hm : m.OfType schema index) : (m.tree schema index).LaysOut schema index m where
  object path i x h := by
    obtain ⟨hat, hx⟩ := at?_tree hs h hm
    exact ⟨.empty, x.members schema i, hat, keys_members i x, nodup_writtenNames hs hx⟩
  emptyList path i x h k f hf hc := by
    obtain ⟨hat, hx⟩ := at?_tree hs h hm
    have hchild := child?_plain hs hx hf hc rfl
    exact ⟨_, by rw [Tree.at?_append hat, Tree.at?_cons hchild]; rfl, rfl⟩
  emptyMap path i x h k f hf hc := by
    obtain ⟨hat, hx⟩ := at?_tree hs h hm
    have hchild := child?_plain hs hx hf hc rfl
    exact ⟨_, by rw [Tree.at?_append hat, Tree.at?_cons hchild]; rfl, rfl⟩

/-- What is appended for a message does not depend on the buffer, and it is the text of the
message. -/
theorem Schema.toList_marshalInto {index : Nat} {m : Message} (hm : m.OfType schema index)
    (hf : m.Finite) (b : Buffer) :
    (schema.marshalInto index m b).toList = b.toList ++ schema.json index m ∧
      (m.tree schema index).bytes = schema.json index m := by
  have hjson : schema.json index m = (m.tree schema index).bytes := by
    rw [Schema.json, Message.toList_write index m .empty hm hf, Buffer.toList_empty,
      List.nil_append]
  rw [hjson]
  exact ⟨Message.toList_write index m b hm hf, rfl⟩

end Layout

namespace Example

/-- A message of the schema is appended to a buffer as the text that it has in an empty one, and
what was in the buffer stays. The text is one object; it and all objects for messages within it have
the fields that are not left out, in order, each once. -/
theorem marshalInto_laysOut (name : MessageName) {x : Message}
    (hx : x.OfType schema name.index) (hfinite : x.Finite) (b : Buffer) :
    (schema.marshalInto name.index x b).toList = b.toList ++ schema.json name.index x ∧
      ∃ t : Json, t.bytes = schema.json name.index x ∧ t.LaysOut schema name.index x := by
  obtain ⟨happend, hbytes⟩ := Schema.toList_marshalInto hx hfinite b
  exact ⟨happend, _, hbytes, Message.laysOut_tree schema_distinct hx⟩

/-- A message with a list that is present but empty, after a comma. -/
theorem marshalInto_laysOut_simple :
    ∃ (x : Message) (b : Buffer), x.OfType schema MessageName.simple.index ∧ x.Finite ∧
      b.toList = [ascii ','] ∧
      (schema.marshalInto MessageName.simple.index x b).toList
        = Utf8.ofString ",\x7b\"nums\":[],\"tag\":\"B\"\x7d" ∧
      ∃ t : Json, t.bytes = schema.json MessageName.simple.index x ∧
        t.LaysOut schema MessageName.simple.index x := by
  have hx : (Message.mk [.single (.string ""), .list [], .single (.enumeration 1)] []).OfType schema
      MessageName.simple.index :=
    ⟨⟨⟨rfl, rfl⟩, ⟨rfl, trivial⟩, ⟨rfl, 1, rfl, .inl rfl⟩, trivial⟩, rfl⟩
  have hfinite :
      (Message.mk [.single (.string ""), .list [], .single (.enumeration 1)] []).Finite :=
    ⟨⟨trivial, trivial, trivial, trivial⟩, trivial⟩
  obtain ⟨happend, ht⟩ := marshalInto_laysOut .simple hx hfinite ⟨#[ascii ','], 1⟩
  refine ⟨_, ⟨#[ascii ','], 1⟩, hx, hfinite, rfl, happend.trans ?_, ht⟩
  decide +kernel

end Example

end ProtoJson
