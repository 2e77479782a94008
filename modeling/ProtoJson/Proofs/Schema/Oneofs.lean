import ProtoJson.Message.Basic
import ProtoJson.Proofs.Result
import ProtoJson.Schema.Example
import ProtoJson.Schema.Resolve

/-!
# Oneofs of a schema

Fields are members of oneofs of their own type. A schema that is made from declarations is so by the
way that the oneofs are numbered.
-/

namespace ProtoJson

/-- Every field that is a member of a oneof refers to one of its type. -/
def Schema.OneofsDeclared (schema : Schema) : Prop :=
  ∀ type ∈ schema.messages, ∀ f ∈ type.fields, ∀ j ∈ f.oneof, j < type.oneofs.length
deriving Decidable

theorem Schema.OneofsDeclared.lt {schema : Schema} (h : schema.OneofsDeclared) {index j : Nat}
    {f : Field} (hf : f ∈ (schema.messageType index).fields) (hj : f.oneof = some j) :
    j < (schema.messageType index).oneofs.length := by
  rw [messageType] at hf ⊢
  cases ht : schema.messages[index]? with
  | none =>
    rw [ht] at hf
    cases hf
  | some type =>
    rw [ht] at hf
    exact h type (List.mem_of_getElem? ht) f hf j hj

theorem Example.oneofsDeclared : Example.schema.OneofsDeclared := by decide +kernel

/-! ## Schemas of declarations -/

namespace MessageDecl

theorem oneofOf?_lt {m : MessageDecl} {f : FieldDecl} {j : Nat} (h : m.oneofOf? f = some j) :
    j < m.keptOneofs.length := by
  rw [oneofOf?] at h
  split at h
  · cases h
  · obtain ⟨i, -, hj⟩ := Option.bind_eq_some_iff.1 h
    exact (List.findIdx?_eq_some_iff_getElem.1 hj).1

end MessageDecl

namespace TypeTable

variable {t : TypeTable}

/-- What a field is made of. Only singular fields are members of oneofs. -/
theorem of_field {context : String} {oneof : Option Nat} {f : FieldDecl} {f' : Field}
    (h : t.field context oneof f = .ok f') :
    ∃ kind cardinality, t.shape context f = .ok (kind, cardinality) ∧
      (oneof.isSome = true → cardinality = .singular) ∧
      f' =
        { name := f.name
          jsonName := f.jsonName.getD (defaultJsonName f.name)
          kind
          cardinality
          oneof } := by
  obtain ⟨⟨kind, cardinality⟩, hshape, h⟩ := Except.bind_eq_ok_iff.1 h
  dsimp only at h
  split at h
  · cases h
  · next hsingular =>
    cases h
    exact ⟨kind, cardinality, hshape, fun hsome => by simpa [hsome] using hsingular, rfl⟩

theorem field_oneof {context : String} {oneof : Option Nat} {f : FieldDecl} {f' : Field}
    (h : t.field context oneof f = .ok f') : f'.oneof = oneof := by
  obtain ⟨-, -, -, -, rfl⟩ := of_field h
  rfl

variable {p : Placed MessageDecl} {type : MessageType}

/-- What a message is made of, and what is checked of it. -/
theorem of_message (h : t.message p = .ok type) :
    ∃ fields, p.decl.fields.mapM
        (fun f => t.field s!"{p.fullName}.{f.name}" (p.decl.oneofOf? f) f) = .ok fields ∧
      type.checkFields = .ok () ∧ type.checkMembers = .ok () ∧
      type =
        { fullName := p.fullName
          typeName := typeIdentifier p.scope.path
          fields
          oneofs := p.decl.keptOneofs.map fun o =>
            ⟨o.1.name, oneofIdentifier (typeIdentifier p.scope.path) o.1.name⟩ } := by
  obtain ⟨fields, hfields, h⟩ := Except.bind_eq_ok_iff.1 h
  obtain ⟨⟨⟩, hcheckFields, h⟩ := Except.bind_eq_ok_iff.1 h
  obtain ⟨⟨⟩, hcheckMembers, h⟩ := Except.bind_eq_ok_iff.1 h
  cases h
  exact ⟨fields, hfields, hcheckFields, hcheckMembers, rfl⟩

/-- The oneofs of a message are those that its fields are numbered by. -/
theorem message_oneofs (h : t.message p = .ok type) :
    ∀ f ∈ type.fields, ∀ j ∈ f.oneof, j < type.oneofs.length := by
  obtain ⟨fields, hfields, -, -, rfl⟩ := of_message h
  intro f hf j hj
  obtain ⟨decl, -, hdecl⟩ := of_mem_mapM_ok hfields hf
  rw [Option.mem_def, field_oneof hdecl] at hj
  rw [List.length_map]
  exact MessageDecl.oneofOf?_lt hj

/-- The members of oneofs are singular. -/
theorem message_singular (h : t.message p = .ok type) :
    ∀ f ∈ type.fields, ∀ j ∈ f.oneof, f.cardinality = .singular := by
  obtain ⟨fields, hfields, -, -, rfl⟩ := of_message h
  intro f hf j hj
  obtain ⟨decl, -, hdecl⟩ := of_mem_mapM_ok hfields hf
  have honeof := field_oneof hdecl
  obtain ⟨kind, cardinality, -, hsingular, rfl⟩ := of_field hdecl
  exact hsingular (Option.isSome_of_mem hj)

end TypeTable

/-- The types that the fields of a set of files can refer to. -/
def TypeTable.ofFiles (files : List FileDecl) : TypeTable where
  messages := ((files.flatMap FileDecl.placedMessages).filter (!·.decl.isMapEntry)).map (·.fullName)
  enums := (files.flatMap FileDecl.placedEnums).map (·.fullName)
  mapEntries := (files.flatMap FileDecl.placedMessages).filter (·.decl.isMapEntry)

/-- How a schema is made from a set of files. -/
structure Schema.MadeFrom (schema : Schema) (files : List FileDecl) : Prop where
  enums : (files.flatMap FileDecl.placedEnums).mapM (·.enumType) = .ok schema.enums
  messages : ((files.flatMap FileDecl.placedMessages).filter (!·.decl.isMapEntry)).mapM
    (TypeTable.ofFiles files).message = .ok schema.messages
  typeNames : Schema.checkDistinct schema.typeNames = .ok ()
  poolMembers : Schema.checkDistinct schema.poolMembers = .ok ()

theorem Schema.madeFrom_of_ofFiles {files : List FileDecl} {schema : Schema}
    (h : Schema.ofFiles files = .ok schema) : schema.MadeFrom files := by
  obtain ⟨enums, henums, h⟩ := Except.bind_eq_ok_iff.1 h
  obtain ⟨messages, hmessages, h⟩ := Except.bind_eq_ok_iff.1 h
  obtain ⟨⟨⟩, htypeNames, h⟩ := Except.bind_eq_ok_iff.1 h
  obtain ⟨⟨⟩, hpoolMembers, h⟩ := Except.bind_eq_ok_iff.1 h
  cases h
  exact ⟨henums, hmessages, htypeNames, hpoolMembers⟩

/-- Every schema that is made from declarations has the oneofs that its fields refer to. -/
theorem Schema.oneofsDeclared_ofFiles {files : List FileDecl} {schema : Schema}
    (h : Schema.ofFiles files = .ok schema) : schema.OneofsDeclared := by
  intro type htype
  obtain ⟨p, -, hp⟩ := of_mem_mapM_ok (Schema.madeFrom_of_ofFiles h).messages htype
  exact TypeTable.message_oneofs hp

end ProtoJson
