import ProtoJson.Proofs.Schema.Keys
import ProtoJson.Proofs.Schema.Names
import ProtoJson.Proofs.Schema.Renumbering
import ProtoJson.Proofs.Source.Reading
import ProtoJson.Proofs.Text.Quoted
import ProtoJson.Source.File

/-!
# Messages of generated source

What the source of a message declares is read off the steps that it is laid out from: the members of
its struct, the functions that test whether a field is left out, and the keys that its reader knows.
They are those of the fields and the oneofs, in order. In the source of a schema that is made from
declarations no two of them are the same.
-/

namespace ProtoJson

open LayoutStep

/-! ## What is read -/

namespace MessageCode

/-- The member of a struct that a line declares. -/
def member? (text : String) : Option String :=
  (text.toList.dropPrefix? "pub ".toList).map fun cs => String.ofList (cs.takeWhile (· ≠ ':'))

/-- The members of a struct. A struct without a body has none. -/
def members? (steps : List LayoutStep) : Option (List String) :=
  (leadingLines (inside (fun text => "pub struct ".toList.isPrefixOf text.toList) steps)).mapM
    member?

/-- The test that a function is. -/
def test? : LayoutStep → Option String
  | enter text => between? "pub fn " "(&self) -> bool \x7b" text
  | line _ | blank | leave _ | turn _ => none

/-- The key of an arm. Nothing but an arm begins with a literal. -/
def armKey? : LayoutStep → Option String
  | line text | enter text => (unquote? text.toList).map Prod.fst
  | blank | leave _ | turn _ => none

/-! ## Members -/

theorem member?_eq_some {text name : String} (rest : List Char) (h : ':' ∉ name.toList)
    (htext : text.toList = "pub ".toList ++ (name.toList ++ ':' :: rest)) :
    member? text = some name := by
  have hdrop : text.toList.dropPrefix? "pub ".toList = some (name.toList ++ ':' :: rest) :=
    List.dropPrefix?_eq_some_iff.2 ⟨"pub ".toList, htext, by simp⟩
  rw [member?, hdrop, Option.map_some, (cut_word h rest).1, String.ofList_toList]

/-- The members of a struct with a body. -/
theorem members?_struct {α : Type} {as : List α} {text name : α → String}
    (h : ∀ a ∈ as, member? (text a) = some (name a)) (front : List String) (type : String)
    (rest : List LayoutStep) :
    members? (front.map line ++ block ("pub struct " ++ type ++ " \x7b")
      (as.map fun a => line (text a)) ++ rest) = some (as.map name) := by
  have hlines : (as.map fun a => line (text a)) = (as.map text).map line := by
    rw [List.map_map]
    rfl
  rw [members?, hlines, List.append_assoc, inside_map_line, inside_block (by simp),
    leadingLines_map_line]
  exact mapM_map_of_eq_some h

/-- A struct without a body. -/
theorem members?_lines (texts : List String) :
    members? (texts.map line ++ [blank]) = some [] := by
  rw [members?, inside_map_line, inside_blank]
  rfl

/-! ## Keys of arms -/

variable {text key : String}

@[simp] theorem armKey?_line (h : text.toList.head? ≠ some '"') : armKey? (line text) = none := by
  rw [armKey?, unquote?_eq_none h, Option.map_none]

@[simp] theorem armKey?_enter (h : text.toList.head? ≠ some '"') :
    armKey? (enter text) = none := by
  rw [armKey?, unquote?_eq_none h, Option.map_none]

@[simp] theorem armKey?_leave : armKey? (leave text) = none := rfl

@[simp] theorem armKey?_turn : armKey? (turn text) = none := rfl

/-- An arm of one line. -/
theorem armKey?_line_quoted (key text : String) :
    armKey? (line (quoted key ++ text)) = some key := by
  rw [armKey?, String.toList_append, unquote?_quoted, Option.map_some]

/-- An arm that is a block. -/
theorem armKey?_enter_quoted (key text : String) :
    armKey? (enter (quoted key ++ text)) = some key := by
  rw [armKey?, String.toList_append, unquote?_quoted, Option.map_some]

end MessageCode

open MessageCode

/-! ## Reading a message -/

theorem colon_not_mem_memberIdentifier (name : String) : ':' ∉ (memberIdentifier name).toList :=
  fun h => absurd (mem_memberIdentifier h) (by decide)

/-- The members of the type of the pools. -/
theorem Schema.members?_poolSteps (c : SourceContext) :
    members? (Schema.poolSteps c) = some (c.schema.messages.map (·.poolMember)) := by
  unfold poolSteps
  split
  · next h =>
    rw [List.isEmpty_iff.1 h]
    exact members?_lines ["/// One instance pool per message type.", "#[derive(Debug, Default)]",
      s!"pub struct {c.pools};"]
  · refine members?_struct (fun m _ => ?_)
      ["/// One instance pool per message type.", "#[derive(Debug, Default)]"] c.pools [blank]
    exact member?_eq_some s!" {c.runtime}::Pool<{m.typeName}>,".toList
      (colon_not_mem_memberIdentifier m.typeName) (by simp [toString])

namespace MessageType

variable (c : SourceContext) (m : MessageType)

theorem map_fst_typedMembers : (m.typedMembers c).map Prod.fst
    = m.plainFields.map Field.member ++ m.oneofs.map Oneof.member := by
  simp only [typedMembers, List.map_append, List.map_map, Function.comp_def]

theorem members?_typeSteps (h : m.fields = [] → m.oneofs = []) : members? (m.typeSteps c)
    = some (m.plainFields.map Field.member ++ m.oneofs.map Oneof.member) := by
  unfold typeSteps
  split
  · next hempty =>
    have hfields := List.isEmpty_iff.1 hempty
    rw [plainFields, hfields, h hfields]
    exact members?_lines [s!"/// `{m.fullName}`", "#[derive(Debug, Clone, Default, PartialEq)]",
      s!"pub struct {m.typeName};"]
  · rw [← map_fst_typedMembers c m]
    refine members?_struct (fun e he => ?_)
      [s!"/// `{m.fullName}`", "#[derive(Debug, Clone, Default, PartialEq)]"] m.typeName [blank]
    have hname : ∃ name, e.1 = memberIdentifier name := by
      have hmem := List.mem_map_of_mem (f := Prod.fst) he
      rw [map_fst_typedMembers, List.mem_append, List.mem_map, List.mem_map] at hmem
      rcases hmem with ⟨f, -, hf⟩ | ⟨o, -, ho⟩
      · exact ⟨f.name, hf.symm⟩
      · exact ⟨o.name, ho.symm⟩
    obtain ⟨name, hname⟩ := hname
    refine member?_eq_some s!" {e.2},".toList ?_ ?_
    · rw [hname]
      exact colon_not_mem_memberIdentifier name
    · simp [toString]

theorem tests_emptinessSteps (f : Field) : gather test? (emptinessSteps f) = [f.emptiness] := by
  have htest : test? (enter s!"pub fn {f.emptiness}(&self) -> bool \x7b") = some f.emptiness :=
    between?_eq "pub fn " "(&self) -> bool \x7b" f.emptiness
  rw [emptinessSteps, gather_append, gather_append, gather_append, gather_block, htest]
  split <;> rfl

theorem tests_functionSteps :
    gather test? (m.functionSteps c) = m.plainFields.map Field.emptiness := by
  have himpl : test? (enter s!"impl {m.typeName} \x7b") = none :=
    between?_eq_none (n := 0) (c := 'p') rfl (by simp [toString])
  -- The one other function of the type begins as the tests do, but ends otherwise.
  have hnew : test? (enter s!"pub fn new_in(pools: &{c.pools}) -> ::std::boxed::Box<Self> \x7b")
      = none :=
    between?_eq_none_of_back (n := 2) (c := 'l') rfl (by simp [toString])
  have hfields : gather test? (m.plainFields.flatMap emptinessSteps)
      = m.plainFields.map Field.emptiness :=
    gather_flatMap test? fun f _ => tests_emptinessSteps f
  rw [functionSteps, gather_append, gather_block, himpl, gather_append, gather_append,
    gather_block, hnew, hfields]
  exact (List.append_nil _).trans (List.append_nil _)

/-! ## Arms -/

theorem armKeys_recycleOptional (f : Field) (name taken : String) :
    gather armKey? (recycleOptional c f name taken) = [] := by
  simp +decide [recycleOptional, SourceContext.recycle, SourceContext.codec, toString]

theorem armKeys_recycleEach (f : Field) (taken : String) :
    gather armKey? (recycleEach c f taken) = [] := by
  simp +decide [recycleEach, SourceContext.recycle, SourceContext.codec, toString]

theorem armKeys_readSequence (opening closing : String) (item : List LayoutStep) :
    gather armKey? (readSequence opening closing item) = gather armKey? item := by
  simp +decide [readSequence, announce, toString]

theorem armKeys_readList (f : Field) : gather armKey? (readList c f) = [] := by
  simp +decide [readList, armKeys_readSequence, armKeys_recycleEach,
    apply_ite (gather armKey?), toString]

theorem armKeys_readMap (f : Field) (key : KeyKind) : gather armKey? (readMap c f key) = [] := by
  simp +decide [readMap, armKeys_readSequence, armKeys_recycleEach, armKeys_recycleOptional,
    apply_ite (gather armKey?), announce, toString]

theorem armKeys_readField (f : Field) : gather armKey? (readField c f) = [f.jsonName] := by
  unfold readField
  split
  all_goals simp +decide [arm, toString, String.append_assoc, armKey?_line_quoted,
    armKey?_enter_quoted, armKeys_recycleOptional, armKeys_readList, armKeys_readMap]

theorem armKeys_readMember (o : Oneof) (f : Field) :
    gather armKey? (readMember c o f) = [f.jsonName] := by
  simp +decide [readMember, arm, toString, String.append_assoc, armKey?_enter_quoted]

theorem armKeys_readArm {f : Field} (h : ∀ j ∈ f.oneof, j < m.oneofs.length) :
    gather armKey? (m.readArm c f) = [f.jsonName] := by
  unfold readArm
  cases honeof : f.oneof with
  | none => exact armKeys_readField c f
  | some j =>
    dsimp only
    rw [List.getElem?_eq_getElem (h j honeof), Option.map_some, Option.getD_some]
    exact armKeys_readMember c _ f

theorem armKeys_readSteps (h : ∀ f ∈ m.fields, ∀ j ∈ f.oneof, j < m.oneofs.length) :
    gather armKey? (m.readSteps c) = m.fields.map (·.jsonName) := by
  have harms : gather armKey? (m.fields.flatMap (m.readArm c)) = m.fields.map (·.jsonName) :=
    gather_flatMap armKey? fun f hf => armKeys_readArm c m (h f hf)
  have hitem : gather armKey? (m.readItem c) = m.fields.map (·.jsonName) := by
    unfold readItem
    split
    · next hempty =>
      rw [List.isEmpty_iff.1 hempty]
      rfl
    · have hfront : gather armKey? [line "let key = p.str()?;", announce ":"] = [] := rfl
      have hmatch : armKey? (enter "match &*key \x7b") = none := rfl
      have hother : gather armKey? [line "_ => p.skip_value(),"] = [] := rfl
      rw [gather_append, gather_block, gather_append, harms, hfront, hmatch, hother, armKey?_leave,
        Option.toList_none, List.nil_append, List.nil_append, List.append_nil, List.append_nil]
  have hfront (pools : String) (hpools : pools = "pools" ∨ pools = "_pools") :
      gather armKey? [enter "fn unmarshal_json(", line "&mut self,",
        line s!"p: &mut {c.runtime}::Parser<'_>,", line s!"{pools}: &{c.pools},",
        turn s!") -> ::core::result::Result<(), {c.runtime}::Error> \x7b"] = [] := by
    rcases hpools with rfl | rfl <;> simp +decide [toString]
  have hend : gather armKey? [line "Ok(())", leave "\x7d"] = [] := rfl
  rw [readSteps, gather_append, gather_append, armKeys_readSequence, hitem, hend,
    hfront _ (ite_eq_or_eq _ _ _), List.nil_append, List.append_nil]

/-- The things that the source of a message gives a name have distinct names: the members of its
struct, the tests of its plain fields, and the keys that its reader knows. So every key is that of
one field. -/
structure Unambiguous (c : SourceContext) (m : MessageType) : Prop where
  members : members? (m.typeSteps c)
    = some (m.plainFields.map Field.member ++ m.oneofs.map Oneof.member)
  tests : gather test? (m.functionSteps c) = m.plainFields.map Field.emptiness
  keys : gather armKey? (m.readSteps c) = m.fields.map (·.jsonName)
  nodupMembers : (m.plainFields.map Field.member ++ m.oneofs.map Oneof.member).Nodup
  nodupTests : (m.plainFields.map Field.emptiness).Nodup
  nodupKeys : (m.fields.map (·.jsonName)).Nodup
  field : ∀ f ∈ m.fields, m.field? f.jsonName = some f

end MessageType

/-- Every message that is made from a declaration is unambiguous. -/
theorem TypeTable.message_unambiguous {t : TypeTable} {p : Placed MessageDecl} {m : MessageType}
    (h : t.message p = .ok m) (c : SourceContext) : m.Unambiguous c := by
  have honeofs := message_oneofs h
  have hmembers := (message_renumbers h).members
  obtain ⟨-, -, hcheckFields, hcheckMembers, -⟩ := of_message h
  obtain ⟨hwords, hkeys⟩ := MessageType.nodup_of_checkFields hcheckFields
  -- A oneof has a member, so a message without fields has no oneofs either.
  have hempty : m.fields = [] → m.oneofs = [] := by
    intro hfields
    by_contra hne
    have hpos := List.length_pos_iff.2 hne
    obtain ⟨f, hf, -⟩ := hmembers 0 hpos
    rw [hfields] at hf
    cases hf
  have htests : (m.plainFields.map Field.emptiness).Nodup := by
    have hplain : (m.plainFields.map fun f => snakeCase f.name).Nodup :=
      hwords.sublist (List.filter_sublist.map _)
    have htests := hplain.map (f := ("is_empty_" ++ ·)) fun v w heq =>
      (String.append_right_inj _).1 heq
    simp only [List.map_map, Function.comp_def] at htests
    exact htests
  exact {
    members := m.members?_typeSteps c hempty
    tests := m.tests_functionSteps c
    keys := m.armKeys_readSteps c honeofs
    nodupMembers := MessageType.nodup_of_checkMembers hcheckMembers
    nodupTests := htests
    nodupKeys := hkeys
    field := fun f hf => find?_of_mem hkeys hf }

/-- The source of a message is a part of that of its schema. -/
theorem Schema.source_isInfix {schema : Schema} {m : MessageType} (h : m ∈ schema.messages)
    (options : SourceOptions) : m.source ⟨schema, options⟩ <:+: schema.sourceSteps options :=
  (isInfix_flatMap h (MessageType.source ⟨schema, options⟩)).trans
    (List.suffix_append _ _).isInfix

/-- In the source of every schema that is made from declarations, every message is unambiguous, and
so are the members of the pools. -/
theorem Schema.unambiguous_ofFiles {files : List FileDecl} {schema : Schema}
    (h : Schema.ofFiles files = .ok schema) (options : SourceOptions) :
    (∀ m ∈ schema.messages, m.source ⟨schema, options⟩ <:+: schema.sourceSteps options ∧
      m.Unambiguous ⟨schema, options⟩) ∧
    poolSteps ⟨schema, options⟩ <:+: schema.sourceSteps options ∧
    members? (poolSteps ⟨schema, options⟩) = some (schema.messages.map (·.poolMember)) ∧
    (schema.messages.map (·.poolMember)).Nodup := by
  have hmade := madeFrom_of_ofFiles h
  refine ⟨fun m hm => ⟨source_isInfix hm options, ?_⟩, ?_, members?_poolSteps _, ?_⟩
  · obtain ⟨p, -, hp⟩ := of_mem_mapM_ok hmade.messages hm
    exact TypeTable.message_unambiguous hp _
  · rw [sourceSteps]
    exact ((List.suffix_append _ _).isInfix.trans (List.prefix_append _ _).isInfix).trans
      (List.prefix_append _ _).isInfix
  · have hnodup := nodup_of_checkDistinct hmade.poolMembers
    simp only [poolMembers, List.map_map, Function.comp_def] at hnodup
    exact hnodup

/-- Words that the language reserves are told apart from names that look like them once they are
marked. -/
theorem Schema.unambiguous_ofFiles_reserved :
    ∃ (files : List FileDecl) (schema : Schema), Schema.ofFiles files = .ok schema ∧
      schema.messages.map (fun m =>
        (m.poolMember, m.plainFields.map Field.member ++ m.oneofs.map Oneof.member))
        = [("r#type", ["r#type", "r_type", "super_"]), ("type1", [])] ∧
      (∀ m ∈ schema.messages, m.source ⟨schema, {}⟩ <:+: schema.sourceSteps {} ∧
        m.Unambiguous ⟨schema, {}⟩) ∧
      poolSteps ⟨schema, {}⟩ <:+: schema.sourceSteps {} ∧
      members? (poolSteps ⟨schema, {}⟩) = some (schema.messages.map (·.poolMember)) ∧
      (schema.messages.map (·.poolMember)).Nodup := by
  have hfiles : Schema.ofFiles
      [{ messages := [
          { name := "Type"
            oneofs := [{ name := "super" }]
            fields := [
              { name := "type", type := some .bool },
              { name := "r_type", type := some .bool },
              { name := "self", type := some .bool, oneofIndex := some 0 }] },
          { name := "Type1" }] }]
      = .ok
        { sources := [""]
          enums := []
          messages := [
            ⟨"Type", "Type", [⟨"type", "type", .bool, .singular, none⟩,
              ⟨"r_type", "rType", .bool, .singular, none⟩,
              ⟨"self", "self", .bool, .singular, some 0⟩], [⟨"super", "TypeSuper"⟩]⟩,
            ⟨"Type1", "Type1", [], []⟩] } := rfl
  exact ⟨_, _, hfiles, rfl, unambiguous_ofFiles hfiles {}⟩

end ProtoJson
