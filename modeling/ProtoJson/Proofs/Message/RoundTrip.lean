import ProtoJson.Proofs.Message.AsRead
import ProtoJson.Proofs.Message.Decoding
import ProtoJson.Proofs.Schema.Keys
import ProtoJson.Schema.Example

/-!
# Messages that are written and read back

The object that is written for a message converts to the assignments that build the message up as it
is read, one for each field that is not left out. Read into a new message, it gives the normal form.
-/

namespace ProtoJson

open Grammar

/-! ## Names that tell apart -/

/-- An enum that a kind refers to declares something. -/
def Kind.Declared (schema : Schema) : Kind → Prop
  | .enumeration i => (schema.enumType i).values ≠ []
  | _ => True

instance (schema : Schema) (kind : Kind) : Decidable (kind.Declared schema) := by
  unfold Kind.Declared
  split <;> infer_instance

/-- In a schema with distinct names, a name fixes a field of its message type and a value of its
enum. -/
structure Schema.Distinct (schema : Schema) : Prop where
  fields : ∀ type ∈ schema.messages, (type.fields.map (·.jsonName)).Nodup
  values : ∀ e ∈ schema.enums, (e.values.map (·.name)).Nodup
  declared : ∀ type ∈ schema.messages, ∀ f ∈ type.fields, f.kind.Declared schema

namespace Schema.Distinct

variable {schema : Schema} (h : schema.Distinct)
include h

theorem names (index : Nat) :
    ((schema.messageType index).fields.map (·.jsonName)).Nodup := by
  unfold Schema.messageType
  cases ht : schema.messages[index]? with
  | none => exact List.nodup_nil
  | some type => exact h.fields type (List.mem_of_getElem? ht)

theorem valueNames (i : Nat) : ((schema.enumType i).values.map (·.name)).Nodup := by
  unfold Schema.enumType
  cases he : schema.enums[i]? with
  | none => exact List.nodup_nil
  | some e => exact h.values e (List.mem_of_getElem? he)

theorem kind {index : Nat} {f : Field} (hf : f ∈ (schema.messageType index).fields) :
    f.kind.Declared schema := by
  unfold Schema.messageType at hf
  cases ht : schema.messages[index]? with
  | none =>
    rw [ht] at hf
    cases hf
  | some type =>
    rw [ht] at hf
    exact h.declared type (List.mem_of_getElem? ht) f hf

end Schema.Distinct

private theorem field?_of_mem {type : MessageType} {f : Field}
    (hnames : (type.fields.map (·.jsonName)).Nodup) (hf : f ∈ type.fields) :
    type.field? f.jsonName = some f :=
  find?_of_mem hnames hf

/-- The JSON name of a plain field names its place. -/
theorem MessageType.slot?_plain {type : MessageType} {k : Nat} {f : Field}
    (hnames : (type.fields.map (·.jsonName)).Nodup) (hf : type.plainFields[k]? = some f) :
    type.slot? f.jsonName = some (.plain k f) := by
  obtain ⟨hmem, honeof⟩ := of_plainFields hf
  have hplain : (type.plainFields.map (·.jsonName)).Nodup :=
    hnames.sublist (List.filter_sublist.map _)
  rw [slot?, field?_of_mem hnames hmem, Option.map_some, honeof]
  dsimp only
  rw [(find?_of_getElem? hplain hf).2]

/-- The JSON name of a member of a oneof names its place. -/
theorem MessageType.slot?_member {type : MessageType} {j k : Nat} {f : Field}
    (hnames : (type.fields.map (·.jsonName)).Nodup) (hf : (type.members j)[k]? = some f) :
    type.slot? f.jsonName = some (.member j k f) := by
  obtain ⟨hmem, honeof⟩ := of_members hf
  have hmembers : ((type.members j).map (·.jsonName)).Nodup :=
    hnames.sublist (List.filter_sublist.map _)
  rw [slot?, field?_of_mem hnames hmem, Option.map_some, honeof]
  dsimp only
  rw [(find?_of_getElem? hmembers hf).2]

/-- The name that a number is written as means the number. -/
theorem EnumType.resolve?_nameOf {e : EnumType} {number : Int}
    (hnames : (e.values.map (·.name)).Nodup) (hvalues : e.values ≠ []) (h : e.Holds number) :
    (resolve? e (.name (e.nameOf number))).map (·.number) = some number := by
  rcases h with hsome | ⟨hnone, -⟩
  · obtain ⟨v, hv⟩ := Option.isSome_iff_exists.1 hsome
    have hmem : v ∈ e.values := List.mem_of_find?_eq_some hv
    have hnumber : v.number = number := number_of_ofNumber? hv
    have hname : e.nameOf number = v.name := by
      rw [nameOf, hv]
      rfl
    rw [resolve?, hname, ofName?_of_mem hnames hmem, hnumber, hv, Option.map_some, hnumber]
  · rw [default?, Option.or_eq_none_iff, List.head?_eq_none_iff] at hnone
    exact absurd hnone.2 hvalues

/-! ## Building a message up -/

/-- The assignments that build plain fields up. `index` is the place of the first. -/
def plainAssignments : List Content → Nat → List Assignment
  | [], _ => []
  | c :: cs, index =>
    if c.isEmpty then plainAssignments cs (index + 1)
    else .plain index c.normal :: plainAssignments cs (index + 1)

/-- The assignments that build oneofs up. `index` is the number of the first. -/
def choiceAssignments : List Choice → Nat → List Assignment
  | [], _ => []
  | .unset :: cs, index => choiceAssignments cs (index + 1)
  | .member k d :: cs, index => .member index k d.normal :: choiceAssignments cs (index + 1)

/-- The assignments that build a message up. -/
def Message.assignments (m : Message) : List Assignment :=
  plainAssignments m.plain 0 ++ choiceAssignments m.choices 0

theorem assignAll_map_some (as : List Assignment) (m : Message) :
    assignAll (as.map some) m = as.foldl Assignment.put m := by
  have hall : (as.map some).all Option.isSome = true := by simp
  rw [assignAll_eq_foldl hall, List.reduceOption, List.filterMap_map]
  simp

section RoundTrip

variable {schema : Schema}

/-- The plain fields in front are built up, and the others hold nothing yet. -/
theorem foldl_plainAssignments (cs done : List Content) (fs : List Field) (choices : List Choice)
    (hcs : PlainOfFields schema cs fs) :
    (plainAssignments cs done.length).foldl Assignment.put
        (.mk (done ++ fs.map schema.initial) choices)
      = .mk (done ++ normalPlain cs) choices := by
  induction cs generalizing done fs with
  | nil =>
    cases fs with
    | nil => rfl
    | cons f fs => cases hcs
  | cons c cs ih =>
    cases fs with
    | nil => cases hcs
    | cons f fs =>
      have hnext := ih (done ++ [c.normal]) fs hcs.2
      rw [List.length_append, List.append_assoc, List.append_assoc] at hnext
      rw [plainAssignments, normalPlain, List.map_cons]
      cases hempty : c.isEmpty with
      | true =>
        rw [if_pos rfl, ← Content.normal_of_isEmpty hcs.1 hempty]
        exact hnext
      | false =>
        have hput : Assignment.put (.mk (done ++ schema.initial f :: fs.map schema.initial) choices)
            (.plain done.length c.normal)
            = .mk (done ++ c.normal :: fs.map schema.initial) choices := by
          simp [Assignment.put, Message.setPlain, Message.plain, Message.choices]
        rw [if_neg (by decide), List.foldl_cons, hput]
        exact hnext

/-- The oneofs in front are built up, and the others hold nothing yet. -/
theorem foldl_choiceAssignments (cs done : List Choice) (plain : List Content) :
    (choiceAssignments cs done.length).foldl Assignment.put
        (.mk plain (done ++ List.replicate cs.length .unset))
      = .mk plain (done ++ normalChoices cs) := by
  induction cs generalizing done with
  | nil => rfl
  | cons c cs ih =>
    rw [List.length_cons, List.replicate_succ]
    cases c with
    | unset =>
      have hnext := ih (done ++ [.unset])
      rw [List.length_append, List.append_assoc, List.append_assoc] at hnext
      exact hnext
    | member k d =>
      have hnext := ih (done ++ [.member k d.normal])
      rw [List.length_append, List.append_assoc, List.append_assoc] at hnext
      have hput : Assignment.put (.mk plain (done ++ .unset :: List.replicate cs.length .unset))
          (.member done.length k d.normal)
          = .mk plain (done ++ .member k d.normal :: List.replicate cs.length .unset) := by
        simp [Assignment.put, Message.setChoice, Message.plain, Message.choices]
      rw [choiceAssignments, List.foldl_cons, hput]
      exact hnext

/-- A new message is built up to the normal form. -/
theorem Message.foldl_assignments {index : Nat} {m : Message} (hm : m.OfType schema index) :
    m.assignments.foldl Assignment.put (schema.emptyMessage index) = m.normal := by
  have hlen := ((Message.ofType_iff index m).1 hm).2.1
  cases m with
  | mk plain choices =>
    have hunset : (schema.messageType index).oneofs.map (fun _ => Choice.unset)
        = List.replicate choices.length .unset := by
      rw [List.map_const', ← hlen]
      rfl
    have hplain := foldl_plainAssignments plain [] _ (List.replicate choices.length .unset) hm.1
    have hchoices := foldl_choiceAssignments choices [] (normalPlain plain)
    rw [List.nil_append, List.nil_append] at hplain hchoices
    rw [Message.assignments, List.foldl_append, Schema.emptyMessage, hunset]
    show (choiceAssignments choices 0).foldl _ ((plainAssignments plain 0).foldl _ _) = _
    rw [show plainAssignments plain 0 = plainAssignments plain ([] : List Content).length from rfl,
      hplain]
    exact hchoices

/-! ## What the object converts to -/

variable {o : ReadOptions}

mutual

/-- A value that is written converts to its normal form, as it is read. -/
theorem Datum.datum?_tree (hs : schema.Distinct) (ho : schema.NamesRead o) (kind : Kind) (d : Datum)
    (depth : Nat) (hd : d.OfKind schema kind) (hf : d.Finite) (hkind : kind.Declared schema)
    (hn : depth + d.nesting 1 ≤ Reader.maxDepth) :
    (d.tree schema kind).datum? schema o depth kind = some (d.asRead o).normal := by
  cases d with
  | bool v =>
    rw [show kind = .bool from hd]
    rfl
  | integer v =>
    obtain ⟨k, rfl, hv⟩ := hd
    show (NumberLiteral.integer? k (.ofInt v)).map Datum.integer = _
    rw [NumberLiteral.integer?_ofInt hv]
    rfl
  | float32 x =>
    rw [show kind = .float32 from hd]
    show some (Datum.float32 ((NumberLiteral.ofBinary x).binary .single)) = _
    rw [NumberLiteral.binary_ofBinary BinaryFormat.isInterchange_single hf]
    rfl
  | float64 x =>
    rw [show kind = .float64 from hd]
    show some (Datum.float64 ((NumberLiteral.ofBinary x).binary .double)) = _
    rw [NumberLiteral.binary_ofBinary BinaryFormat.isInterchange_double hf]
    rfl
  | string s =>
    rw [show kind = .string from hd]
    rw [Datum.tree, Tree.datum?, Tree.string?, Option.bind_some, StringLiteral.text?_ofString,
      Option.map_some, Datum.asRead, Datum.normal]
  | bytes bs =>
    rw [show kind = .bytes from hd]
    rw [Datum.tree, Tree.datum?, Tree.string?, Option.bind_some, StringLiteral.bytes?_ofBase64,
      Option.map_some, Datum.asRead, Datum.normal]
  | enumeration number =>
    obtain ⟨i, rfl, hnumber⟩ := hd
    -- The name that is written belongs to no other value, so it is looked up again.
    have hname := EnumType.resolve?_nameOf (hs.valueNames i) hkind hnumber
    rw [Datum.tree, Tree.datum?, Tree.enumReference?, StringLiteral.text?_ofString, ho.value,
      Option.map_some, Option.bind_some]
    obtain ⟨v, hv, hvn⟩ := Option.map_eq_some_iff.1 hname
    rw [hv, Option.map_some, hvn]
    rfl
  | message m =>
    obtain ⟨i, rfl, hm⟩ := hd
    have hn' : depth + m.nesting 1 ≤ Reader.maxDepth := hn
    -- The members convert to the assignments that build the message up from an empty one.
    have hassign := Message.assignments_members hs ho i m (depth + 1) hm hf (by omega)
    have hopen : depth < Reader.maxDepth := by
      cases m
      rw [Message.nesting] at hn'
      omega
    rw [Datum.tree, Tree.datum?, hassign, if_pos ⟨hopen, by simp⟩, assignAll_map_some,
      Message.foldl_assignments (Message.asRead_ofType i m hm)]
    rfl

theorem data?_elementItems (hs : schema.Distinct) (ho : schema.NamesRead o) (kind : Kind)
    (ds : List Datum) (depth : Nat) (hds : ElementsOfKind schema kind ds) (hf : ElementsFinite ds)
    (hkind : kind.Declared schema) (hn : depth + elementsNesting 1 ds ≤ Reader.maxDepth) :
    (elementItems schema kind ds).data? schema o depth kind
      = some (normalElements (elementsAsRead o ds)) := by
  cases ds with
  | nil => rfl
  | cons d ds =>
    rw [elementsNesting] at hn
    have hd := Datum.datum?_tree hs ho kind d depth hds.1 hf.1 hkind (by omega)
    have hrest := data?_elementItems hs ho kind ds depth hds.2 hf.2 hkind (by omega)
    rw [elementItems, Items.data?, hd, Option.bind_some, hrest]
    rfl

theorem pairs?_entryMembers (hs : schema.Distinct) (ho : schema.NamesRead o) (keyKind : KeyKind)
    (kind : Kind) (es : List (MapKey × Datum)) (depth : Nat)
    (hes : EntriesOfKind schema keyKind kind es) (hf : EntriesFinite es)
    (hkind : kind.Declared schema) (hn : depth + entriesNesting 1 es ≤ Reader.maxDepth) :
    (entryMembers schema kind es).pairs? schema o depth keyKind kind
      = some (normalEntries (entriesAsRead o es)) := by
  cases es with
  | nil => rfl
  | cons e es =>
    obtain ⟨key, d⟩ := e
    rw [entriesNesting] at hn
    have hd := Datum.datum?_tree hs ho kind d depth hes.2.1 hf.1 hkind (by omega)
    have hrest := pairs?_entryMembers hs ho keyKind kind es depth hes.2.2 hf.2 hkind (by omega)
    rw [entryMembers, Members.pairs?, MapKey.key?_ofString_text hes.1, Option.bind_some, hd,
      Option.bind_some, hrest]
    rfl

/-- A field that is written converts to an assignment of its normal form. -/
theorem Content.assignment?_tree (hs : schema.Distinct) (ho : schema.NamesRead o) (f : Field)
    (c : Content) (index : Nat) (depth : Nat) (hc : c.OfField schema f) (hf : c.Finite)
    (hkind : f.kind.Declared schema) (hempty : c.isEmpty = false)
    (hn : depth + c.nesting 1 ≤ Reader.maxDepth) :
    (c.tree schema f.kind).assignment? schema o depth (.plain index f)
      = some (.plain index (c.asRead o).normal) := by
  rw [Tree.assignment?, Slot.assignment?]
  cases c with
  | absent => cases hempty
  | single d =>
    have hd := Datum.datum?_tree hs ho f.kind d depth hc.2 hf hkind hn
    -- A value that is written is no zero, so no sign is dropped.
    have hread : (Content.single (d.asRead o)).isEmpty = false :=
      (Content.isEmpty_asRead (.single d)).trans hempty
    rw [hc.1, Content.asRead, Content.normal, Datum.dropSign_normal hread]
    dsimp only
    rw [Content.tree, hd]
    rfl
  | list ds =>
    rw [Content.nesting] at hn
    have hds := data?_elementItems hs ho f.kind ds (depth + 1) hc.2 hf hkind (by omega)
    rw [hc.1]
    dsimp only
    rw [Content.tree, Tree.elements?, if_pos (by omega), hds]
    rfl
  | map es =>
    obtain ⟨k, hmap, hes, -⟩ := hc
    rw [Content.nesting] at hn
    have hpairs := pairs?_entryMembers hs ho k f.kind es (depth + 1) hes hf hkind (by omega)
    rw [hmap]
    dsimp only
    rw [Content.tree, Tree.entries?, if_pos (by omega), hpairs]
    rfl

/-- The members that are written for the last plain fields convert to the assignments that build
these up. -/
theorem assignments_plainMembers (hs : schema.Distinct) (ho : schema.NamesRead o) (index : Nat)
    (rest : Members NumberLiteral StringLiteral) (cs : List Content) (fs front : List Field)
    (depth : Nat) (hcs : PlainOfFields schema cs fs) (hf : PlainFinite cs)
    (hfields : (schema.messageType index).plainFields = front ++ fs)
    (hn : depth + plainNesting 1 cs ≤ Reader.maxDepth) :
    (plainMembers schema rest cs fs).assignments schema o depth index
      = (plainAssignments (plainAsRead o cs) front.length).map some
        ++ rest.assignments schema o depth index := by
  cases cs with
  | nil => simp [plainMembers, plainAsRead, plainAssignments]
  | cons c cs =>
    cases fs with
    | nil => cases hcs
    | cons f fs =>
      rw [plainNesting] at hn
      have hrest := assignments_plainMembers hs ho index rest cs fs (front ++ [f]) depth hcs.2 hf.2
        (by rw [hfields, List.append_assoc]; rfl) (by omega)
      rw [List.length_append] at hrest
      rw [plainMembers, plainAsRead, plainAssignments, Content.isEmpty_asRead]
      cases hempty : c.isEmpty with
      | true =>
        rw [if_pos rfl, if_pos rfl]
        exact hrest
      | false =>
        have hplace : (schema.messageType index).plainFields[front.length]? = some f := by
          rw [hfields]
          simp
        have hmem := (MessageType.of_plainFields hplace).1
        have hslot := MessageType.slot?_plain (hs.names index) hplace
        have hc := Content.assignment?_tree hs ho f c front.length depth hcs.1 hf.1 (hs.kind hmem)
          hempty (by omega)
        rw [if_neg (by decide), if_neg (by decide),
          Members.assignments_known (ho.text?_jsonName hmem) hslot, hc, hrest]
        rfl

/-- The members that are written for the last oneofs convert to the assignments that build these
up. -/
theorem assignments_choiceMembers (hs : schema.Distinct) (ho : schema.NamesRead o) (index : Nat)
    (cs : List Choice) (j : Nat) (depth : Nat)
    (hcs : ChoicesOfType schema (schema.messageType index) cs j) (hf : ChoicesFinite cs)
    (hn : depth + choicesNesting 1 cs ≤ Reader.maxDepth) :
    (choiceMembers schema (schema.messageType index) cs j).assignments schema o depth index
      = (choiceAssignments (choicesAsRead o cs) j).map some := by
  cases cs with
  | nil => rfl
  | cons c cs =>
    cases c with
    | unset => exact assignments_choiceMembers hs ho index cs (j + 1) depth hcs.2 hf hn
    | member k d =>
      rw [choicesNesting] at hn
      obtain ⟨f, hplace, hd⟩ := hcs.1
      have hmem := (MessageType.of_members hplace).1
      have hslot := MessageType.slot?_member (hs.names index) hplace
      have hrest := assignments_choiceMembers hs ho index cs (j + 1) depth hcs.2 hf.2 (by omega)
      have hdatum := Datum.datum?_tree hs ho f.kind d depth hd hf.1 (hs.kind hmem) (by omega)
      rw [choiceMembers, hplace]
      dsimp only
      rw [Members.assignments_known (ho.text?_jsonName hmem) hslot, Tree.assignment?,
        Slot.assignment?, hdatum, hrest]
      rfl

/-- The members that are written for a message convert to the assignments that build it up. -/
theorem Message.assignments_members (hs : schema.Distinct) (ho : schema.NamesRead o) (index : Nat)
    (m : Message) (depth : Nat) (hm : m.OfType schema index) (hf : m.Finite)
    (hn : depth + m.nesting 1 ≤ Reader.maxDepth + 1) :
    (m.members schema index).assignments schema o depth index
      = (m.asRead o).assignments.map some := by
  cases m with
  | mk plain choices =>
    rw [Message.nesting] at hn
    rw [Message.members, assignments_plainMembers hs ho index _ plain _ [] depth hm.1 hf.1 rfl
      (by omega), assignments_choiceMembers hs ho index choices 0 depth hm.2 hf.2 (by omega),
      Message.assignments, List.map_append]
    rfl

end

/-! ## Messages in general -/

/-- A message that is not nested too deeply is read back in normal form, with its strings and bytes
as the options say, from a buffer and into a message of the pools, whatever was done with these
before. -/
theorem Schema.unmarshal_marshal_asRead (hs : schema.Distinct) (ho : schema.NamesRead o)
    {ps : Pools} (hps : ps.Reachable schema) {index : Nat} {m : Message}
    (hm : m.OfType schema index) (hf : m.Finite) (hn : m.depth ≤ Reader.maxDepth)
    (buffers : Pool Buffer) :
    ∃ st, schema.unmarshal index (schema.marshal index m buffers).1 o
        (ps.acquire schema index).1 (ps.acquire schema index).2
        = (.ok (), (m.asRead o).normal, st) ∧
      st.reader.rest = [] ∧
      st.reader.offset = (schema.marshal index m buffers).1.length := by
  obtain ⟨hnew, hclean⟩ := hps.clean.acquire index
  have hassign : (m.members schema index).assignments schema o 1 index
      = (m.asRead o).assignments.map some :=
    Message.assignments_members hs ho index m 1 hm hf (by rw [Message.depth] at hn; omega)
  -- What is written is the text of the members, and it is read into an empty message.
  have hread := unmarshal_object schema (fun t _ => skippable_json t)
    index o (schema.emptyMessage index) (ps.acquire schema index).2 .empty .empty
    (m.members schema index) [] (Members.skip_of_forall (fun _ => trivial) index _)
  rw [Schema.marshal_eq index hm hf, hnew]
  have htext :
      Blanks.empty.bytes ++ (Tree.object .empty (m.members schema index) : Json).bytes ++ []
        = (m.tree schema index).bytes := by
    rw [Blanks.bytes_empty, List.nil_append, List.append_nil]
    rfl
  rw [htext, hassign] at hread
  generalize schema.unmarshal index _ _ _ _ = res at hread ⊢
  obtain ⟨res, m', st⟩ := res
  have hok : res = .ok () := hread.ok_iff.2 (by simp)
  have hm' : m' = (m.asRead o).normal := by
    rw [show m' = _ from hread.1 ⟨emptyMessage_ofType index, hclean⟩, assignAll_map_some,
      Message.foldl_assignments (Message.asRead_ofType index m hm)]
  have hst := hread.reader hok
  refine ⟨st, by rw [hok, hm'], ?_⟩
  rw [show st.reader = _ from hst]
  refine ⟨rfl, ?_⟩
  simp [Message.tree]

/-- With everything decoded the message itself is read back, in normal form. -/
theorem Schema.unmarshal_marshal_of_depth (hs : schema.Distinct) {ps : Pools}
    (hps : ps.Reachable schema) {index : Nat} {m : Message} (hm : m.OfType schema index)
    (hf : m.Finite) (hn : m.depth ≤ Reader.maxDepth) (buffers : Pool Buffer) :
    ∃ st, schema.unmarshal index (schema.marshal index m buffers).1 .decodeAll
        (ps.acquire schema index).1 (ps.acquire schema index).2 = (.ok (), m.normal, st) ∧
      st.reader.rest = [] ∧
      st.reader.offset = (schema.marshal index m buffers).1.length := by
  have hread := Schema.unmarshal_marshal_asRead hs schema.namesRead_decodeAll hps hm hf hn buffers
  rwa [Message.asRead_decodeAll] at hread

end RoundTrip

/-! ## The example schema -/

namespace Example

theorem schema_distinct : schema.Distinct where
  fields := by decide
  values := by decide
  declared := by decide

/-- A node holds a number and a node at most, so it is nested no deeper than it has levels. -/
theorem node_depth_le {n : Nat} {m : Message} (hm : m.OfType schema 5) (hlevels : m.levels ≤ n) :
    m.depth ≤ n := by
  induction n generalizing m with
  | zero =>
    cases m
    rw [Message.levels, Message.nesting] at hlevels
    omega
  | succ n ih =>
    obtain ⟨plain, choices⟩ := m
    obtain ⟨hplain, hchoices⟩ := hm
    have hunset : choices = [] := by
      have hlen := ((choicesOfType_iff node choices 0).1 hchoices).1
      rw [Nat.zero_add] at hlen
      exact List.length_eq_zero_iff.1 hlen
    rcases plain with _ | ⟨value, _ | ⟨child, _ | ⟨c, cs⟩⟩⟩
    · exact hplain.elim
    · exact hplain.2.elim
    · have hvalue : ∀ brackets, value.nesting brackets = 0 := by
        rcases Content.nesting_cases hplain.1 rfl with hzero | ⟨i, m', hkind, -⟩
        · exact hzero
        · cases hkind
      simp only [Message.depth, Message.levels, Message.nesting, plainNesting, choicesNesting,
        hvalue, hunset] at hlevels ⊢
      -- The child is the only message that is held, one level further in.
      have hchild : child.nesting 1 ≤ n := by
        rcases Content.nesting_cases hplain.2.1 rfl with hzero | ⟨i, m', hkind, rfl, hm'⟩
        · rw [hzero]
          exact Nat.zero_le n
        · cases hkind
          rw [Content.nesting, Datum.nesting] at hlevels ⊢
          exact ih hm' (by rw [Message.levels]; omega)
      omega
    · exact hplain.2.2.elim

/-- A message whose type has no message fields holds a list or a map at most. -/
theorem flat_depth {index : Nat} {m : Message} (hm : m.OfType schema index)
    (hflat : ∀ f ∈ (schema.messageType index).fields, f.kind.isMessage = false) : m.depth ≤ 2 := by
  show m.nesting 1 ≤ 1 + 1 + 0
  apply Message.nesting_le hm
  intro f hf i hkind
  have hscalar := hflat f hf
  rw [hkind] at hscalar
  cases hscalar

/-- Messages of all types but nodes are nested to a fixed depth, and nodes hold no lists or maps. So
only the levels of messages can make a message too deep. -/
theorem depth_le (name : MessageName) {m : Message} (hm : m.OfType schema name.index)
    (hlevels : m.levels ≤ Reader.maxDepth) : m.depth ≤ Reader.maxDepth := by
  cases name with
  | msg => exact (flat_depth hm (by decide)).trans (by decide)
  | nestedMsg => exact (flat_depth hm (by decide)).trans (by decide)
  | simple => exact (flat_depth hm (by decide)).trans (by decide)
  | empty => exact (flat_depth hm (by decide)).trans (by decide)
  | node => exact node_depth_le hm hlevels
  | exampleMsg =>
    have hkinds : ∀ f ∈ exampleMsg.fields,
        f.kind.isMessage = true → f.kind = .message 0 ∨ f.kind = .message 2 := by decide
    have hbound : m.depth ≤ 1 + 1 + 2 := by
      apply Message.nesting_le hm
      intro f hf i hkind m' hm'
      rcases hkinds f hf (by rw [hkind]; rfl) with h | h
      · cases hkind.symm.trans h
        exact flat_depth hm' (by decide)
      · cases hkind.symm.trans h
        exact flat_depth hm' (by decide)
    exact hbound.trans (by decide)

/-- Every message of the schema, with finite numbers and at most 128 levels of messages, is read
back from its own text, and the reader is at the end of the text. What is read is the message field
by field, with positive zeros in its plain fields. The pools may have been used before. -/
theorem unmarshal_marshal (name : MessageName) {ps : Pools} (hps : ps.Reachable schema)
    {x : Message} (hx : x.OfType schema name.index) (hfinite : x.Finite)
    (hlevels : x.levels ≤ Reader.maxDepth) (buffers : Pool Buffer) :
    ∃ st, schema.unmarshal name.index (schema.marshal name.index x buffers).1 .decodeAll
        (ps.acquire schema name.index).1 (ps.acquire schema name.index).2
        = (.ok (), x.normal, st) ∧
      st.reader.rest = [] ∧
      st.reader.offset = (schema.marshal name.index x buffers).1.length :=
  Schema.unmarshal_marshal_of_depth schema_distinct hps hx hfinite (depth_le name hx hlevels)
    buffers

/-- A node within a node is read back. -/
theorem unmarshal_marshal_node :
    ∃ x : Message, x.OfType schema MessageName.node.index ∧ x.Finite ∧
      x.levels ≤ Reader.maxDepth ∧
      ∃ st, schema.unmarshal MessageName.node.index
          (schema.marshal MessageName.node.index x .empty).1 .decodeAll
          ((Pools.ofSchema schema).acquire schema MessageName.node.index).1
          ((Pools.ofSchema schema).acquire schema MessageName.node.index).2
          = (.ok (), x.normal, st) := by
  have hps : (Pools.ofSchema schema).Reachable schema :=
    .start _ (by simp [Pools.ofSchema, Pool.empty, Pool.withCapacity])
  have hchild : (Message.mk [.single (.integer 7), .absent] []).OfType schema 5 :=
    ⟨⟨⟨rfl, .int32, rfl, by decide⟩, rfl, trivial⟩, rfl⟩
  have hx : (Message.mk [.single (.integer 0),
      .single (.message (.mk [.single (.integer 7), .absent] []))] []).OfType schema
        MessageName.node.index :=
    ⟨⟨⟨rfl, .int32, rfl, by decide⟩, ⟨rfl, 5, rfl, hchild⟩, trivial⟩, rfl⟩
  have hfinite : (Message.mk [.single (.integer 0),
      .single (.message (.mk [.single (.integer 7), .absent] []))] []).Finite :=
    ⟨⟨trivial, ⟨⟨trivial, trivial, trivial⟩, trivial⟩, trivial⟩, trivial⟩
  obtain ⟨st, hread, -⟩ := unmarshal_marshal .node hps hx hfinite (by decide) .empty
  exact ⟨_, hx, hfinite, by decide, st, hread⟩

end Example

end ProtoJson
