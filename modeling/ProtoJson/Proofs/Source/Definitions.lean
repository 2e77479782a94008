import ProtoJson.Proofs.Document.Scan
import ProtoJson.Proofs.Schema.Names
import ProtoJson.Proofs.Schema.Resolution
import ProtoJson.Proofs.Source.Balance
import ProtoJson.Proofs.Source.Enum
import ProtoJson.Request

/-!
# The types that generated source defines

The types are read off the steps that generated source is laid out from: the structs and enums that
are declared outside all items. They are the type that holds the pools, the enums, and for each
message its struct and the enums of its oneofs. Those of the schema have distinct names in every
file that is generated; the name of the pools is chosen by the request, and nothing compares it with
the others.
-/

namespace ProtoJson

/-! ## Definitions among steps -/

namespace LayoutStep

/-- The type that a step defines. -/
def typeName? : LayoutStep → Option String
  | line text => between? "pub struct " ";" text
  | enter text => (between? "pub struct " " \x7b" text).or (between? "pub enum " " \x7b" text)
  | blank | leave _ | turn _ => none

/-- The level after a step. -/
def next (level : Nat) : LayoutStep → Nat
  | line _ | blank => level
  | enter _ => level + 1
  | leave _ => level - 1
  | turn _ => level - 1 + 1

/-- The types that are defined outside all items, in order. -/
def definitions (level : Nat) : List LayoutStep → List String
  | [] => []
  | step :: rest =>
    (if level = 0 then step.typeName?.toList else []) ++ definitions (step.next level) rest

/-- Steps that stay within an item define nothing outside. -/
theorem definitions_append_of_level {level level' : Nat} {xs : List LayoutStep}
    (h : levelAfter? level xs = some level') (ys : List LayoutStep) :
    definitions (level + 1) (xs ++ ys) = definitions (level' + 1) ys := by
  -- The items within `xs` are read one level further in than `levelAfter?` counts, so none of them
  -- stands outside, and `leave` never takes the last level away.
  induction xs generalizing level with
  | nil =>
    cases h
    rfl
  | cons step xs ih =>
    rw [List.cons_append, definitions, if_neg (Nat.succ_ne_zero level), List.nil_append]
    cases step with
    | line t => exact ih h
    | blank => exact ih h
    | enter t => exact ih h
    | leave t =>
      rw [levelAfter?] at h
      split at h
      · cases h
      · next hne =>
        rw [next, show level + 1 - 1 = level - 1 + 1 by omega]
        exact ih h
    | turn t =>
      rw [levelAfter?] at h
      split at h
      · cases h
      · exact ih h

/-- Outside all items, the steps define these types and nothing else. -/
def Defines (xs : List LayoutStep) (names : List String) : Prop :=
  ∀ ys, definitions 0 (xs ++ ys) = names ++ definitions 0 ys

namespace Defines

variable {xs ys : List LayoutStep} {names names' : List String}

theorem nil : Defines [] [] := fun _ => rfl

theorem append (hx : Defines xs names) (hy : Defines ys names') :
    Defines (xs ++ ys) (names ++ names') := by
  intro zs
  rw [List.append_assoc, hx, hy, List.append_assoc]

theorem flatMap {α : Type} (as : List α) {g : α → List LayoutStep} {names : α → List String}
    (h : ∀ a ∈ as, Defines (g a) (names a)) : Defines (as.flatMap g) (as.flatMap names) := by
  induction as with
  | nil => exact nil
  | cons a as ih =>
    rw [List.flatMap_cons, List.flatMap_cons]
    exact (h a List.mem_cons_self).append (ih fun a' ha' => h a' (List.mem_cons_of_mem a ha'))

theorem blank : Defines [blank] [] := fun _ => rfl

theorem line (t : String) : Defines [line t] (between? "pub struct " ";" t).toList := fun _ => rfl

theorem block (heading : String) {body : List LayoutStep}
    (h : ∀ level, levelAfter? level body = some level) :
    Defines (block heading body) (enter heading).typeName?.toList := by
  intro ys
  rw [LayoutStep.block, List.cons_append, definitions, if_pos rfl, next, List.append_assoc,
    definitions_append_of_level (h 0)]
  rfl

theorem append_blank (h : Defines xs names) : Defines (xs ++ [.blank]) names := by
  have hblank := h.append blank
  rwa [List.append_nil] at hblank

/-- A line that begins otherwise defines nothing. -/
theorem line_cons {t : String} {c : Char} (ht : t.toList[0]? = some c) (hne : c ≠ 'p')
    (hx : Defines xs names) : Defines (.line t :: xs) names := by
  have hnone : between? "pub struct " ";" t = none :=
    between?_eq_none (n := 0) (c := 'p') rfl (by rw [ht]; simpa using hne)
  have hline := (line t).append hx
  rwa [hnone] at hline

/-- A block that begins otherwise defines nothing. -/
theorem block_of_head {heading : String} {c : Char} {body : List LayoutStep}
    (hc : heading.toList[0]? = some c) (hne : c ≠ 'p')
    (h : ∀ level, levelAfter? level body = some level) :
    Defines (LayoutStep.block heading body) [] := by
  have hstruct : between? "pub struct " " \x7b" heading = none :=
    between?_eq_none (n := 0) (c := 'p') rfl (by rw [hc]; simpa using hne)
  have henum : between? "pub enum " " \x7b" heading = none :=
    between?_eq_none (n := 0) (c := 'p') rfl (by rw [hc]; simpa using hne)
  have hblock := block heading h
  rwa [typeName?, hstruct, henum] at hblock

theorem unit (name : String) : Defines [.line ("pub struct " ++ name ++ ";")] [name] := by
  have hline := line ("pub struct " ++ name ++ ";")
  rwa [between?_eq] at hline

theorem struct (name : String) {body : List LayoutStep}
    (h : ∀ level, levelAfter? level body = some level) :
    Defines (LayoutStep.block ("pub struct " ++ name ++ " \x7b") body) [name] := by
  have hblock := block ("pub struct " ++ name ++ " \x7b") h
  rwa [typeName?, between?_eq] at hblock

theorem enum (name : String) {body : List LayoutStep}
    (h : ∀ level, levelAfter? level body = some level) :
    Defines (LayoutStep.block ("pub enum " ++ name ++ " \x7b") body) [name] := by
  -- The two headings differ first after `pub `.
  have hplace : ("pub enum " ++ name ++ " \x7b").toList[4]? = some 'e' := by simp
  have hstruct : between? "pub struct " " \x7b" ("pub enum " ++ name ++ " \x7b") = none :=
    between?_eq_none (n := 4) (c := 's') rfl (by rw [hplace]; decide)
  have hblock := block ("pub enum " ++ name ++ " \x7b") h
  rwa [typeName?, hstruct, between?_eq] at hblock

end Defines

end LayoutStep

open LayoutStep Document Grammar

/-! ## Definitions in generated source -/

variable (c : SourceContext)

/-- The pools are one type. -/
theorem Schema.defines_poolSteps : Defines (Schema.poolSteps c) [c.pools] := by
  refine .append_blank (.line_cons (c := '/') rfl (by decide)
    (.line_cons (c := '#') rfl (by decide) (?_ : Defines _ [c.pools])))
  split
  · exact .unit c.pools
  · exact .struct c.pools fun level => levelAfter?_map_line level _ _

/-- An enum that declares something is one type. -/
theorem EnumType.defines_source {e : EnumType} (h : e.values ≠ []) :
    Defines (e.source c) [e.typeName] := by
  obtain ⟨v, hv⟩ := exists_defaultVariant? h
  rw [source, hv]
  dsimp only
  have himpl : ∀ {body : List LayoutStep}, (∀ level, levelAfter? level body = some level) →
      Defines (block ("impl " ++ c.runtime ++ "::Enumeration for " ++ e.typeName ++ " \x7b") body)
        [] :=
    .block_of_head (c := 'i') (by simp) (by decide)
  refine Defines.append_blank (Defines.append (?_ : Defines _ [e.typeName]) (himpl ?_))
  · refine Defines.append_blank (.line_cons (c := '/') (by simp [toString]) (by decide) ?_)
    refine .line_cons (c := '#') rfl (by decide) (.line_cons (c := '#') rfl (by decide) ?_)
    exact .enum e.typeName fun level => by simp
  · intro level
    simp

/-- The struct of a message. -/
theorem MessageType.defines_typeSteps (m : MessageType) : Defines (m.typeSteps c) [m.typeName] := by
  refine .append_blank (.line_cons (c := '/') (by simp [toString]) (by decide)
    (.line_cons (c := '#') rfl (by decide) (?_ : Defines _ [m.typeName])))
  split
  · exact .unit m.typeName
  · exact .struct m.typeName fun level => levelAfter?_map_line level _ _

/-- The enum of a oneof. -/
theorem MessageType.defines_oneofSteps (m : MessageType) (o : Oneof) (index : Nat) :
    Defines (m.oneofSteps c o index) [o.typeName] := by
  have himpl : ∀ {body : List LayoutStep}, (∀ level, levelAfter? level body = some level) →
      Defines (block ("impl " ++ o.typeName ++ " \x7b") body) [] :=
    .block_of_head (c := 'i') (by simp) (by decide)
  refine Defines.append_blank (Defines.append (?_ : Defines _ [o.typeName]) (himpl ?_))
  · refine Defines.append_blank (.line_cons (c := '/') (by simp [toString]) (by decide) ?_)
    refine .line_cons (c := '#') rfl (by decide) ?_
    exact .enum o.typeName fun level => by simp
  · intro level
    simp

/-- A message is the type of its struct and those of its oneofs. -/
theorem MessageType.defines_source (m : MessageType) : Defines (m.source c) m.typeNames := by
  have honeofs : Defines (m.oneofs.zipIdx.flatMap fun e => m.oneofSteps c e.1 e.2)
      (m.oneofs.map (·.typeName)) := by
    have hflat := Defines.flatMap m.oneofs.zipIdx fun e _ => m.defines_oneofSteps c e.1 e.2
    have hnames : (m.oneofs.zipIdx.flatMap fun e => [e.1.typeName])
        = m.oneofs.map (·.typeName) := by
      conv_rhs => rw [← List.zipIdx_map_fst 0 m.oneofs, List.map_map]
      exact List.map_eq_flatMap.symm
    rwa [hnames] at hflat
  have hfunctions : Defines (m.functionSteps c) [] := by
    refine Defines.append_blank (.block_of_head (c := 'i') (by simp [toString]) (by decide) ?_)
    intro level
    simp
  have hcodec : Defines (m.codecSteps c) [] := by
    refine Defines.append_blank (.block_of_head (c := 'i') (by simp [toString]) (by decide) ?_)
    intro level
    simp
  have hsource := (((m.defines_typeSteps c).append honeofs).append hfunctions).append hcodec
  rwa [List.append_nil, List.append_nil] at hsource

/-- The types of a schema. -/
theorem Schema.map_fst_typeNames (schema : Schema) :
    schema.typeNames.map Prod.fst
      = schema.enums.map (·.typeName) ++ schema.messages.flatMap (·.typeNames) := by
  rw [typeNames, List.map_append, List.map_map, List.map_flatMap]
  simp [Function.comp_def]

/-- Generated source defines the type of the pools and the types of the schema. -/
theorem Schema.definitions_sourceSteps {schema : Schema} (options : SourceOptions)
    (h : ∀ e ∈ schema.enums, e.values ≠ []) :
    definitions 0 (schema.sourceSteps options)
      = options.poolsName :: schema.typeNames.map Prod.fst := by
  have hsources : Defines (schema.sources.map fun name => line s!"// source: {name}") [] := by
    induction schema.sources with
    | nil => exact .nil
    | cons name names ih =>
      exact .line_cons (c := '/') (by simp [toString]) (by decide) ih
  have henums : Defines (schema.enums.flatMap (EnumType.source ⟨schema, options⟩))
      (schema.enums.map (·.typeName)) := by
    have hflat := Defines.flatMap schema.enums fun e he =>
      EnumType.defines_source ⟨schema, options⟩ (h e he)
    rwa [← List.map_eq_flatMap] at hflat
  have hmessages : Defines (schema.messages.flatMap (MessageType.source ⟨schema, options⟩))
      (schema.messages.flatMap (·.typeNames)) :=
    .flatMap _ fun m _ => m.defines_source ⟨schema, options⟩
  have hhead : Defines ([line "// Code generated by fastjsonpb-gen. DO NOT EDIT."] ++
      schema.sources.map (fun name => line s!"// source: {name}") ++ [.blank]) [] :=
    .append_blank (.line_cons (c := '/') rfl (by decide) hsources)
  have hall := ((hhead.append (defines_poolSteps ⟨schema, options⟩)).append henums).append
    hmessages []
  rw [List.append_nil, definitions, List.append_nil] at hall
  rw [map_fst_typeNames]
  exact hall

/-! ## Files -/

theorem Placed.enumType_values_ne_nil {p : Placed EnumDecl} {e : EnumType}
    (h : p.enumType = .ok e) : e.values ≠ [] := by
  obtain ⟨hne, -, rfl⟩ := of_enumType h
  simpa using hne

/-- The types of a schema that is made from declarations have distinct names. -/
theorem Schema.MadeFrom.nodup_typeNames {schema : Schema} {files : List FileDecl}
    (h : schema.MadeFrom files) : (schema.typeNames.map Prod.fst).Nodup :=
  nodup_of_checkDistinct h.typeNames

/-- How the file that is generated for a request is made. -/
structure Request.Makes (r : Request) (options : SourceOptions) (schema : Schema)
    (f : SourceFile) : Prop where
  parses : SourceOptions.parse (r.parameter.getD "") = .ok options
  resolves : Schema.ofFiles r.files = .ok schema
  file : f = ⟨r.fileName, text (schema.sourceSteps options)⟩

theorem Request.generate_eq_ok_iff {r : Request} {f : SourceFile} :
    r.generate = .ok f ↔ ∃ options schema, r.Makes options schema f := by
  constructor
  · intro h
    obtain ⟨options, hoptions, h⟩ := Except.bind_eq_ok_iff.1 h
    obtain ⟨schema, hschema, h⟩ := Except.bind_eq_ok_iff.1 h
    cases h
    exact ⟨options, schema, Except.mapError_eq_ok_iff.1 hoptions,
      Except.mapError_eq_ok_iff.1 hschema, rfl⟩
  · rintro ⟨options, schema, hoptions, hschema, rfl⟩
    rw [generate, hoptions, hschema]
    rfl

theorem respond_eq_file_iff {request : List UInt8} {f : SourceFile} :
    respond request = .ok (.file f) ↔ ∃ r options schema,
      Document.decode Request.decode request = .ok r ∧ r.Makes options schema f := by
  rw [respond]
  constructor
  · intro h
    cases hr : Document.decode Request.decode request with
    | error e =>
      rw [hr] at h
      cases h
    | ok r =>
      rw [hr, Except.map, Except.ok.injEq, Request.respond] at h
      split at h
      · next f' hf =>
        cases h
        obtain ⟨options, schema, hmakes⟩ := Request.generate_eq_ok_iff.1 hf
        exact ⟨r, options, schema, rfl, hmakes⟩
      · cases h
  · rintro ⟨r, options, schema, hr, hmakes⟩
    rw [hr, Except.map, Request.respond, Request.generate_eq_ok_iff.2 ⟨options, schema, hmakes⟩]

/-- Every file that a request is answered with defines the type of the pools, whose name the request
chooses, and the types of the schema, whose names are distinct. So no two types share a name just if
no type of the schema is named as the pools are. -/
theorem respond_definitions {request : List UInt8} {f : SourceFile}
    (h : respond request = .ok (.file f)) :
    ∃ r options schema, Document.decode Request.decode request = .ok r ∧
      r.Makes options schema f ∧
      definitions 0 (schema.sourceSteps options)
        = options.poolsName :: schema.typeNames.map Prod.fst ∧
      (schema.typeNames.map Prod.fst).Nodup ∧
      ((definitions 0 (schema.sourceSteps options)).Nodup ↔
        options.poolsName ∉ schema.typeNames.map Prod.fst) := by
  obtain ⟨r, options, schema, hr, hmakes⟩ := respond_eq_file_iff.1 h
  have hmade := Schema.madeFrom_of_ofFiles hmakes.resolves
  have hvalues : ∀ e ∈ schema.enums, e.values ≠ [] := by
    intro e he
    obtain ⟨p, -, hp⟩ := of_mem_mapM_ok hmade.enums he
    exact Placed.enumType_values_ne_nil hp
  have hdefinitions := Schema.definitions_sourceSteps options hvalues
  refine ⟨r, options, schema, hr, hmakes, hdefinitions, hmade.nodup_typeNames, ?_⟩
  rw [hdefinitions, List.nodup_cons, and_iff_left hmade.nodup_typeNames]

/-- The member of a request that holds its files: one with a message named as the pools are by
default. -/
def Grammar.Members.poolsFile : Members NumberLiteral StringLiteral :=
  .cons .empty (.ofString "protoFile") .empty .empty
    (.array .empty (.cons .empty
      (.inList "messageType" (.object .empty
        (.cons .empty (.ofString "name") .empty .empty (.string (.ofString "Pools")) .empty .nil)))
      .empty .nil)) .empty .nil

/-- The document of that file, in a list. -/
def Document.poolsFile : Document :=
  .array [.inList "messageType"
    (.object [(Utf8.ofString "name", .string (Utf8.ofString "Pools"))] true)] true

/-- A request for the file, -/
def Grammar.Tree.poolsRequest : Tree NumberLiteral StringLiteral := .object .empty .poolsFile

/-- and one that names the pools otherwise. -/
def Grammar.Tree.arenaRequest : Tree NumberLiteral StringLiteral :=
  .object .empty (.cons .empty (.ofString "parameter") .empty .empty
    (.string (.ofString "pools_name=Arena")) .empty .poolsFile)

theorem Grammar.Tree.document_poolsRequest : poolsRequest.document = .object
    [(Utf8.ofString "protoFile", .poolsFile)] true := rfl

theorem Grammar.Tree.document_arenaRequest : arenaRequest.document = .object
    [(Utf8.ofString "parameter", .string (Utf8.ofString "pools_name=Arena")),
      (Utf8.ofString "protoFile", .poolsFile)] true := rfl

theorem FileDecl.decode_poolsFile (depth : Nat) :
    asList FileDecl.decode (depth + 5) .poolsFile
      = .ok [{ messages := [{ name := "Pools" }] }] := by
  simp [Document.poolsFile, Document.inList, FileDecl.decode, FileDecl.members, MessageDecl.decode,
    MessageDecl.members, RecordMember.of, asRecord, asMembers, readMembers, asList, asItems,
    asString, decodeString?_ofString, orMalformed, ifWhole, Except.map, bind, Except.bind, pure,
    Except.pure]

theorem Request.decode_poolsRequest : Document.decode Request.decode Tree.poolsRequest.bytes
    = .ok { files := [{ messages := [{ name := "Pools" }] }] } := by
  have hfile := FileDecl.decode_poolsFile 121
  rw [Document.decode_bytes, Tree.document_poolsRequest]
  simp [maxDepth, Request.decode, Request.members, RecordMember.of, asRecord, asMembers,
    readMembers, decodeString?_ofString, orMalformed, ifWhole, hfile, Except.map, bind, Except.bind]

theorem Request.decode_arenaRequest : Document.decode Request.decode Tree.arenaRequest.bytes
    = .ok { parameter := "pools_name=Arena",
            files := [{ messages := [{ name := "Pools" }] }] } := by
  have hfile := FileDecl.decode_poolsFile 121
  rw [Document.decode_bytes, Tree.document_arenaRequest]
  simp [maxDepth, Request.decode, Request.members, RecordMember.of, asRecord, asMembers,
    readMembers, asOptional, asString, decodeString?_ofString, orMalformed, ifWhole, hfile,
    Except.map, bind, Except.bind]

/-- A message may be named as the pools are by default, if these have another name. -/
theorem respond_definitions_arena :
    ∃ request f, respond request = .ok (.file f) ∧
      ∃ r options schema, Document.decode Request.decode request = .ok r ∧
        r.Makes options schema f ∧
        definitions 0 (schema.sourceSteps options) = ["Arena", "Pools"] ∧
        (definitions 0 (schema.sourceSteps options)).Nodup := by
  have hdecode := Request.decode_arenaRequest
  have hoptions : SourceOptions.parse "pools_name=Arena" = .ok { poolsName := "Arena" } := rfl
  have hschema : Schema.ofFiles [{ messages := [{ name := "Pools" }] }]
      = .ok ⟨[""], [], [⟨"Pools", "Pools", [], []⟩]⟩ := rfl
  have hfile := respond_eq_file_iff.2 ⟨_, _, _, hdecode, ⟨hoptions, hschema, rfl⟩⟩
  obtain ⟨r, options, schema, hr, hmakes, hdefinitions, -, hnodup⟩ := respond_definitions hfile
  obtain rfl := Except.ok.inj (hdecode.symm.trans hr)
  obtain rfl := Except.ok.inj (hoptions.symm.trans hmakes.parses)
  obtain rfl := Except.ok.inj (hschema.symm.trans hmakes.resolves)
  exact ⟨_, _, hfile, _, _, _, hr, hmakes, hdefinitions, hnodup.2 (by decide)⟩

/-- A message may be named as the pools are. Then two types of the file share a name. -/
theorem respond_twoPools :
    ∃ (f : SourceFile) (r : Request) (options : SourceOptions) (schema : Schema),
      respond (Utf8.ofString
        "\x7b\"protoFile\":[\x7b\"messageType\":[\x7b\"name\":\"Pools\"\x7d]\x7d]\x7d")
        = .ok (.file f) ∧
      r.Makes options schema f ∧
      definitions 0 (schema.sourceSteps options) = ["Pools", "Pools"] ∧
      ¬(definitions 0 (schema.sourceSteps options)).Nodup := by
  have hrequest : Utf8.ofString
      "\x7b\"protoFile\":[\x7b\"messageType\":[\x7b\"name\":\"Pools\"\x7d]\x7d]\x7d"
        = Tree.poolsRequest.bytes := by decide +kernel
  have hdecode := Request.decode_poolsRequest
  rw [← hrequest] at hdecode
  have hschema : Schema.ofFiles [{ messages := [{ name := "Pools" }] }]
      = .ok ⟨[""], [], [⟨"Pools", "Pools", [], []⟩]⟩ := rfl
  have hmakes : Request.Makes { files := [{ messages := [{ name := "Pools" }] }] } {}
      ⟨[""], [], [⟨"Pools", "Pools", [], []⟩]⟩ _ := ⟨rfl, hschema, rfl⟩
  have hdefinitions : definitions 0
      (Schema.sourceSteps ⟨[""], [], [⟨"Pools", "Pools", [], []⟩]⟩ {}) = ["Pools", "Pools"] :=
    Schema.definitions_sourceSteps {} (by simp)
  refine ⟨_, _, _, _, respond_eq_file_iff.2 ⟨_, _, _, hdecode, hmakes⟩, hmakes, hdefinitions, ?_⟩
  rw [hdefinitions]
  decide

end ProtoJson
