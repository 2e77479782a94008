import Mathlib.Data.List.Forall2
import ProtoJson.Proofs.Declaration.Places
import ProtoJson.Proofs.Schema.Oneofs

/-!
# Resolution of references

A schema that is made from declarations has a message for every message that is declared and is no
map entry, an enum for every enum that is declared outside map entries, and a field for every field.
The references of fields become indices of the types that they name, and map entries become the maps
that they stand for.
-/

namespace ProtoJson

open FileDecl

/-! ## What declarations stand for -/

/-- The kind that the keys of a map are values of. -/
def KeyKind.kind : KeyKind → Kind
  | .string => .string
  | .bool => .bool
  | .integer kind => .integer kind

/-- The field is declared to hold values of a kind. A reference names the type by its full name,
with a dot in front or without. -/
def FieldDecl.IsOfKind (schema : Schema) (f : FieldDecl) : Kind → Prop
  | .message j => f.type = some .message ∧ ∃ type, schema.messages[j]? = some type ∧
      type.fullName = TypeTable.target (f.typeName.getD "")
  | .enumeration j => f.type = some .enumeration ∧ ∃ e, schema.enums[j]? = some e ∧
      e.fullName = TypeTable.target (f.typeName.getD "")
  | kind => f.type.bind FieldType.scalar? = some kind

/-- The field is a repeated message field, and its type is a map entry that is declared. -/
def FieldDecl.IsMapOf (files : List FileDecl) (f : FieldDecl) (entry : MessageDecl) : Prop :=
  f.label = some .repeated ∧ f.type = some .message ∧
    ∃ reference place scope, f.typeName = some reference ∧
      DeclaresMessage files place ⟨scope, entry⟩ ∧ entry.isMapEntry = true ∧
      scope.fullName = TypeTable.target reference

/-- A field of a schema stands for a field that is declared. -/
structure Field.StandsFor (files : List FileDecl) (schema : Schema) (decl : FieldDecl) (f : Field) :
    Prop where
  name : f.name = decl.name
  jsonName : f.jsonName = decl.jsonName.getD (defaultJsonName decl.name)
  /-- The maps are the fields whose type is a map entry. -/
  isMap : (∃ key, f.cardinality = .map key) ↔ ∃ entry, decl.IsMapOf files entry
  /-- Keys are of the kind of field 1 of the entry, and values of the kind of field 2. -/
  ofEntry : ∀ key, f.cardinality = .map key → ∃ entry k v, decl.IsMapOf files entry ∧
    entry.fields.find? (·.number = 1) = some k ∧ entry.fields.find? (·.number = 2) = some v ∧
    k.IsOfKind schema key.kind ∧ v.IsOfKind schema f.kind
  /-- All other fields are of the kind that they are declared with. -/
  ofOther : (∀ entry, ¬decl.IsMapOf files entry) → decl.IsOfKind schema f.kind ∧
    f.cardinality = if decl.label = some .repeated then .list else .singular

/-- The types of a schema are those that are declared in a set of files, in the order of their
places. -/
structure Schema.Resolves (files : List FileDecl) (schema : Schema) : Prop where
  messages : ∃ items,
    IsListing (· < ·) (fun place m => DeclaresMessage files place m ∧ m.decl.isMapEntry = false)
      items ∧
    List.Forall₂ (fun item type => type.fullName = item.2.fullName ∧
      List.Forall₂ (Field.StandsFor files schema) item.2.decl.fields type.fields)
      items schema.messages
  enums : ∃ items,
    IsListing (Prod.Lex (· < ·) (· < ·)) (DeclaresEnum files) items ∧
    List.Forall₂ (fun item e => e.fullName = item.2.fullName ∧
      e.values.map (fun v => (v.name, v.number))
        = item.2.decl.values.map fun v => (v.name, v.number))
      items schema.enums

/-! ## Looking up names -/

theorem map_eq_of_forall₂ {α β γ : Type} {f : α → γ} {g : β → γ} {xs : List α} {ys : List β}
    (h : List.Forall₂ (fun x y => f x = g y) xs ys) : xs.map f = ys.map g := by
  rw [← List.forall₂_eq_eq_eq, List.forall₂_map_left_iff, List.forall₂_map_right_iff]
  exact h

namespace TypeTable

theorem getElem?_of_index? {name : String} {names : List String} {i : Nat}
    (h : index? name names = some i) : names[i]? = some name := by
  obtain ⟨j, hj, rfl⟩ := Option.map_eq_some_iff.1 h
  obtain ⟨hlt, hname, -⟩ := List.findIdx?_eq_some_iff_getElem.1 hj
  rw [List.getElem_reverse, beq_iff_eq] at hname
  rw [List.length_reverse] at hlt
  rw [List.getElem?_eq_getElem (by omega), hname]

variable {t : TypeTable} {reference : String}

theorem mem_of_mapEntry? {entry : MessageDecl} (h : t.mapEntry? reference = some entry) :
    ∃ scope, ⟨scope, entry⟩ ∈ t.mapEntries ∧ scope.fullName = target reference := by
  obtain ⟨⟨scope, entry'⟩, hp, rfl⟩ := Option.map_eq_some_iff.1 h
  refine ⟨scope, List.mem_reverse.1 (List.mem_of_find?_eq_some hp), ?_⟩
  have hname := List.find?_some hp
  exact beq_iff_eq.1 hname

theorem mapEntry?_ne_none {scope : Scope} {entry : MessageDecl}
    (hmem : ⟨scope, entry⟩ ∈ t.mapEntries) (hname : scope.fullName = target reference) :
    t.mapEntry? reference ≠ none := by
  intro hnone
  unfold mapEntry? at hnone
  rw [Option.map_eq_none_iff, List.find?_eq_none] at hnone
  exact hnone _ (List.mem_reverse.2 hmem) (beq_iff_eq.2 hname)

end TypeTable

theorem Kind.eq_of_key? {kind : Kind} {key : KeyKind} (h : kind.key? = some key) :
    kind = key.kind := by
  cases kind <;> cases h <;> rfl

/-! ## Fields -/

namespace TypeTable

/-- The table has the types of a set of files, under the indices that they have in a schema. -/
structure Describes (t : TypeTable) (files : List FileDecl) (schema : Schema) : Prop where
  messages : t.messages = schema.messages.map (·.fullName)
  enums : t.enums = schema.enums.map (·.fullName)
  mapEntries : ∀ p, p ∈ t.mapEntries ↔
    (∃ place, DeclaresMessage files place p) ∧ p.decl.isMapEntry = true

variable {t : TypeTable} {files : List FileDecl} {schema : Schema} {context : String}
  {f : FieldDecl}

theorem Describes.message (ht : t.Describes files schema) {reference : String} {j : Nat}
    (h : t.message? reference = some j) :
    ∃ type, schema.messages[j]? = some type ∧ type.fullName = target reference := by
  have hname := getElem?_of_index? h
  rw [ht.messages, List.getElem?_map] at hname
  exact Option.map_eq_some_iff.1 hname

theorem Describes.enum (ht : t.Describes files schema) {reference : String} {j : Nat}
    (h : t.enum? reference = some j) :
    ∃ e, schema.enums[j]? = some e ∧ e.fullName = target reference := by
  have hname := getElem?_of_index? h
  rw [ht.enums, List.getElem?_map] at hname
  exact Option.map_eq_some_iff.1 hname

theorem kind_isOfKind (ht : t.Describes files schema) {kind : Kind}
    (h : t.kind context f = .ok kind) : f.IsOfKind schema kind := by
  rw [TypeTable.kind] at h
  split at h
  · cases h
  · next htype =>
    split at h
    · next i hi =>
      cases h
      exact ⟨htype, ht.message hi⟩
    · cases h
    · cases h
  · next htype =>
    split at h
    · next i hi =>
      cases h
      exact ⟨htype, ht.enum hi⟩
    · cases h
  · next type _ _ htype =>
    split at h
    · next kind' hkind =>
      cases h
      have hscalar : f.type.bind FieldType.scalar? = some kind := by
        rw [htype, Option.bind_some, hkind]
      cases type <;> cases hkind <;> exact hscalar
    · cases h

theorem entryOf?_isMapOf (ht : t.Describes files schema) {entry : MessageDecl}
    (h : t.entryOf? f = some entry) : f.IsMapOf files entry := by
  rw [entryOf?] at h
  split at h
  · next hmap =>
    obtain ⟨reference, hreference, hentry⟩ := Option.bind_eq_some_iff.1 h
    obtain ⟨scope, hmem, hname⟩ := mem_of_mapEntry? hentry
    obtain ⟨⟨place, hplace⟩, hisEntry⟩ := (ht.mapEntries _).1 hmem
    exact ⟨hmap.1, hmap.2, reference, place, scope, hreference, hplace, hisEntry, hname⟩
  · cases h

theorem not_isMapOf (ht : t.Describes files schema) (h : t.entryOf? f = none)
    (entry : MessageDecl) : ¬f.IsMapOf files entry := by
  rintro ⟨hlabel, htype, reference, place, scope, hreference, hplace, hentry, hname⟩
  rw [entryOf?, if_pos ⟨hlabel, htype⟩, hreference, Option.bind_some] at h
  exact mapEntry?_ne_none ((ht.mapEntries _).2 ⟨⟨place, hplace⟩, hentry⟩) hname h

theorem entryKind_isOfKind (ht : t.Describes files schema) {entry : MessageDecl} {n : Int}
    {kind : Kind} (h : t.entryKind context entry n = .ok kind) :
    ∃ decl, entry.fields.find? (·.number = n) = some decl ∧ decl.IsOfKind schema kind := by
  rw [entryKind] at h
  split at h
  · next decl hdecl => exact ⟨decl, hdecl, kind_isOfKind ht h⟩
  · cases h

/-- The shape of a map field is that of its entry. -/
theorem of_mapShape (ht : t.Describes files schema) {entry : MessageDecl} {kind : Kind}
    {cardinality : Cardinality} (h : t.mapShape context entry = .ok (kind, cardinality)) :
    ∃ key k v, cardinality = .map key ∧ entry.fields.find? (·.number = 1) = some k ∧
      entry.fields.find? (·.number = 2) = some v ∧ k.IsOfKind schema key.kind ∧
      v.IsOfKind schema kind := by
  obtain ⟨keyKind, hkey, h⟩ := Except.bind_eq_ok_iff.1 h
  split at h
  · next key hkind =>
    obtain ⟨valueKind, hvalue, h⟩ := Except.bind_eq_ok_iff.1 h
    cases h
    obtain ⟨k, hk, hkKind⟩ := entryKind_isOfKind ht hkey
    obtain ⟨v, hv, hvKind⟩ := entryKind_isOfKind ht hvalue
    rw [Kind.eq_of_key? hkind] at hkKind
    exact ⟨key, k, v, rfl, hk, hv, hkKind, hvKind⟩
  · cases h

/-- A field that is resolved stands for its declaration. -/
theorem field_standsFor (ht : t.Describes files schema) {oneof : Option Nat} {f' : Field}
    (h : t.field context oneof f = .ok f') : f'.StandsFor files schema f := by
  obtain ⟨kind, cardinality, hshape, -, rfl⟩ := of_field h
  rw [shape] at hshape
  cases hentry : t.entryOf? f with
  | some entry =>
    rw [hentry] at hshape
    have hmap : f.IsMapOf files entry := entryOf?_isMapOf ht hentry
    obtain ⟨key, k, v, rfl, hk, hv, hkKind, hvKind⟩ := of_mapShape ht hshape
    exact {
      name := rfl
      jsonName := rfl
      isMap := ⟨fun _ => ⟨entry, hmap⟩, fun _ => ⟨key, rfl⟩⟩
      ofEntry := by
        rintro key' heq
        cases heq
        exact ⟨entry, k, v, hmap, hk, hv, hkKind, hvKind⟩
      ofOther := fun hnot => absurd hmap (hnot entry) }
  | none =>
    rw [hentry] at hshape
    dsimp only at hshape
    have hnot := not_isMapOf ht hentry
    cases hkind : t.kind context f with
    | error e =>
      rw [hkind] at hshape
      cases hshape
    | ok kind' =>
      rw [hkind] at hshape
      cases hshape
      -- Without an entry the label decides, and no label makes a map.
      have hcardinality : ∀ key,
          (if f.label = some .repeated then Cardinality.list else .singular) ≠ .map key := by
        intro key heq
        split at heq <;> cases heq
      exact {
        name := rfl
        jsonName := rfl
        isMap := ⟨fun ⟨key, heq⟩ => absurd heq (hcardinality key),
          fun ⟨entry, hmap⟩ => absurd hmap (hnot entry)⟩
        ofEntry := fun key heq => absurd heq (hcardinality key)
        ofOther := fun _ => ⟨kind_isOfKind ht hkind, rfl⟩ }

end TypeTable

/-! ## Schemas -/

theorem TypeTable.message_fields {t : TypeTable} {p : Placed MessageDecl} {type : MessageType}
    (h : t.message p = .ok type) : type.fullName = p.fullName ∧
      List.Forall₂ (fun decl f => ∃ context oneof, t.field context oneof decl = .ok f)
        p.decl.fields type.fields := by
  obtain ⟨fields, hfields, -, -, rfl⟩ := of_message h
  exact ⟨rfl, (forall₂_of_mapM_ok hfields).imp fun decl f hf => ⟨_, _, hf⟩⟩

/-- The enum of a declaration has the values that are declared, and no two variants of one name. -/
theorem Placed.of_enumType {p : Placed EnumDecl} {e : EnumType} (h : p.enumType = .ok e) :
    p.decl.values ≠ [] ∧ e.clash? = none ∧
      e =
        { fullName := p.fullName
          typeName := typeIdentifier p.scope.path
          values := p.decl.values.map fun v => ⟨v.name, v.number, variantIdentifier v.name⟩ } := by
  rw [enumType] at h
  split at h
  · cases h
  next hne =>
  dsimp only at h
  split at h
  · cases h
  · next hclash =>
    cases h
    exact ⟨by simpa using hne, hclash, rfl⟩

theorem Placed.enumType_values {p : Placed EnumDecl} {e : EnumType} (h : p.enumType = .ok e) :
    e.fullName = p.fullName ∧
      e.values.map (fun v => (v.name, v.number))
        = p.decl.values.map fun v => (v.name, v.number) := by
  obtain ⟨-, -, rfl⟩ := of_enumType h
  exact ⟨rfl, by rw [List.map_map]; rfl⟩

/-- Every schema that is made from declarations resolves them. -/
theorem Schema.resolves_ofFiles {files : List FileDecl} {schema : Schema}
    (h : Schema.ofFiles files = .ok schema) : schema.Resolves files := by
  have hmade := Schema.madeFrom_of_ofFiles h
  have hm := forall₂_of_mapM_ok hmade.messages
  have he := forall₂_of_mapM_ok hmade.enums
  have hlisted := lists_flatMap_placedMessages files
  -- The table is made of all files at once, so a reference may be used before its declaration.
  have ht : (TypeTable.ofFiles files).Describes files schema := {
    messages := map_eq_of_forall₂ (hm.imp fun p type hp => (TypeTable.message_fields hp).1.symm)
    enums := map_eq_of_forall₂ (he.imp fun p e hp => (Placed.enumType_values hp).1.symm)
    mapEntries := fun p => by rw [TypeTable.ofFiles, List.mem_filter, hlisted.mem_iff] }
  constructor
  · obtain ⟨items, hitems, hsnd⟩ := hlisted.filter fun m => !m.decl.isMapEntry
    refine ⟨items, ⟨hitems.ascending, fun place m => ?_⟩, ?_⟩
    · rw [hitems.complete, Bool.not_eq_true']
    · rw [← hsnd, List.forall₂_map_left_iff] at hm
      refine hm.imp fun item type hp => ?_
      obtain ⟨hname, hfields⟩ := TypeTable.message_fields hp
      refine ⟨hname, hfields.imp fun decl f hf => ?_⟩
      obtain ⟨context, oneof, hf⟩ := hf
      exact TypeTable.field_standsFor ht hf
  · obtain ⟨items, hitems, hsnd⟩ := lists_flatMap_placedEnums files
    refine ⟨items, hitems, ?_⟩
    rw [← hsnd, List.forall₂_map_left_iff] at he
    exact he.imp fun item e h => Placed.enumType_values h

/-- A message that refers to one declared inside it, to a map entry whose values refer back, and to
an enum of a later file. -/
theorem Schema.resolves_ofFiles_mutual :
    ∃ (files : List FileDecl) (schema : Schema), Schema.ofFiles files = .ok schema ∧
      schema.messages.map (fun m => (m.fullName, m.fields.map fun f => (f.kind, f.cardinality)))
        = [("p.A", [(.message 1, .singular), (.message 0, .map .string),
            (.enumeration 0, .singular)]), ("p.A.B", [])] ∧
      schema.Resolves files := by
  have hfiles : Schema.ofFiles
      [{ package := some "p"
         messages := [
           { name := "A"
             fields := [
               { name := "b", type := some .message, typeName := some ".p.A.B" },
               { name := "m", label := some .repeated, type := some .message,
                 typeName := some "p.A.M" },
               { name := "e", type := some .enumeration, typeName := some ".E" }]
             messages := [
               { name := "M"
                 fields := [
                   { name := "key", number := 1, type := some .string },
                   { name := "value", number := 2, type := some .message,
                     typeName := some ".p.A" }]
                 isMapEntry := true },
               { name := "B" }] }] },
        { enums := [{ name := "E", values := [{ name := "X" }] }] }]
      = .ok
        { sources := ["", ""]
          enums := [⟨"E", "E", [⟨"X", 0, "X"⟩]⟩]
          messages := [
            ⟨"p.A", "A", [⟨"b", "b", .message 1, .singular, none⟩,
              ⟨"m", "m", .message 0, .map .string, none⟩,
              ⟨"e", "e", .enumeration 0, .singular, none⟩], []⟩,
            ⟨"p.A.B", "AB", [], []⟩] } := rfl
  exact ⟨_, _, hfiles, rfl, resolves_ofFiles hfiles⟩

end ProtoJson
