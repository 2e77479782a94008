import Mathlib.Data.List.Forall2
import ProtoJson.Proofs.Declaration.Places
import ProtoJson.Proofs.Schema.Oneofs

/-!
# Numbering of oneofs

A message keeps the oneofs that fields refer to other than to record whether they are set, and
numbers them anew in the order of their declarations. Indices that no oneof is declared at, negative
ones among them, are as good as none.
-/

namespace ProtoJson

namespace MessageDecl

/-- The declaration of a message has a field, other than an optional one, that refers to the oneof
declared at an index. -/
def RefersTo (m : MessageDecl) (index : Nat) : Prop :=
  ∃ f ∈ m.fields, f.isOptional = false ∧ f.oneofIndex = some (index : Int)

end MessageDecl

/-- A field of a message is a member of the oneof that its declaration refers to. `kept` has the
oneofs of the message, each with the index of its declaration. -/
structure Field.Renumbers (m : MessageDecl) (oneofs : List Oneof) (kept : List (Nat × OneofDecl))
    (decl : FieldDecl) (f : Field) : Prop where
  name : f.name = decl.name
  ofSome : ∀ i, f.oneof = some i → f.cardinality = .singular ∧ decl.isOptional = false ∧
    ∃ j o declared, oneofs[i]? = some o ∧ kept[i]? = some (j, declared) ∧
      decl.oneofIndex = some (j : Int) ∧ m.oneofs[j]? = some declared ∧ o.name = declared.name
  ofNone : f.oneof = none ↔
    decl.isOptional = true ∨ ∀ j : Nat, decl.oneofIndex = some (j : Int) → m.oneofs[j]? = none

/-- The oneofs of a message are those that its declaration refers to, in the order of the
declarations, and each has a member. -/
structure MessageType.Renumbers (m : MessageDecl) (type : MessageType)
    (kept : List (Nat × OneofDecl)) : Prop where
  listing : IsListing (· < ·) (fun j o => m.oneofs[j]? = some o ∧ m.RefersTo j) kept
  names : type.oneofs.map (·.name) = kept.map (·.2.name)
  members : ∀ i < type.oneofs.length, ∃ f ∈ type.fields, f.oneof = some i
  fields : List.Forall₂ (Field.Renumbers m type.oneofs kept) m.fields type.fields

/-! ## Kept oneofs -/

namespace MessageDecl

variable {m : MessageDecl} {f : FieldDecl} {i j : Nat} {o : OneofDecl}

theorem usesOneof_iff : m.usesOneof j = true ↔ m.RefersTo j := by
  simp only [usesOneof, List.any_eq_true, Bool.and_eq_true, decide_eq_true_eq,
    Bool.not_eq_true', RefersTo, and_comm]

theorem isListing_keptOneofs : IsListing (· < ·)
    (fun j o => m.oneofs[j]? = some o ∧ m.RefersTo j) (m.keptOneofs.map Prod.swap) := by
  have hlisting := (IsListing.indices m.oneofs).filter fun e => m.usesOneof e.1
  simp only [usesOneof_iff] at hlisting
  rw [List.filter_map] at hlisting
  exact hlisting

theorem mem_keptOneofs : (o, j) ∈ m.keptOneofs ↔ m.oneofs[j]? = some o ∧ m.RefersTo j := by
  rw [← isListing_keptOneofs.complete, List.mem_map]
  constructor
  · exact fun h => ⟨(o, j), h, rfl⟩
  · rintro ⟨e, he, heq⟩
    cases heq
    exact he

/-- A field is a member of the kept oneof that it refers to. No two are declared at one index. -/
theorem oneofOf?_eq_some_iff : m.oneofOf? f = some i ↔ f.isOptional = false ∧
    ∃ o j, m.keptOneofs[i]? = some (o, j) ∧ f.oneofIndex = some (j : Int) := by
  rw [oneofOf?]
  split
  · next h => simp [h]
  next h =>
  rw [Bool.not_eq_true] at h
  rw [Option.bind_eq_some_iff, and_iff_right h]
  constructor
  · rintro ⟨index, hindex, hi⟩
    obtain ⟨hlt, hkept, -⟩ := List.findIdx?_eq_some_iff_getElem.1 hi
    rw [decide_eq_true_eq] at hkept
    exact ⟨_, _, List.getElem?_eq_getElem hlt, hkept ▸ hindex⟩
  · rintro ⟨o, j, hkept, hindex⟩
    obtain ⟨hlt, hget⟩ := List.getElem?_eq_some_iff.1 hkept
    refine ⟨j, hindex, List.findIdx?_eq_some_iff_getElem.2 ⟨hlt, ?_, fun k hk => ?_⟩⟩
    · rw [hget, decide_eq_true_eq]
    · have hascending := List.pairwise_map.1 (isListing_keptOneofs (m := m)).ascending
      have hbefore := List.pairwise_iff_getElem.1 hascending k i (by omega) hlt hk
      rw [hget] at hbefore
      have hne : m.keptOneofs[k].2 ≠ j := Nat.ne_of_lt hbefore
      simpa [Int.natCast_inj] using hne

/-- A field is a member of no oneof just if it refers to none that is declared. -/
theorem oneofOf?_eq_none_iff (hf : f ∈ m.fields) : m.oneofOf? f = none ↔
    f.isOptional = true ∨ ∀ j : Nat, f.oneofIndex = some (j : Int) → m.oneofs[j]? = none := by
  rw [Option.eq_none_iff_forall_ne_some]
  constructor
  · intro h
    rw [or_iff_not_imp_left, Bool.not_eq_true]
    intro hplain j hindex
    by_contra hdeclared
    -- The field itself has the oneof kept.
    obtain ⟨o, ho⟩ := Option.ne_none_iff_exists'.1 hdeclared
    obtain ⟨i, hi⟩ := List.getElem?_of_mem (mem_keptOneofs.2 ⟨ho, f, hf, hplain, hindex⟩)
    exact h i (oneofOf?_eq_some_iff.2 ⟨hplain, o, j, hi, hindex⟩)
  · rintro h i hi
    obtain ⟨hplain, o, j, hkept, hindex⟩ := oneofOf?_eq_some_iff.1 hi
    have ho := (mem_keptOneofs.1 (List.mem_of_getElem? hkept)).1
    rcases h with h | h
    · rw [hplain] at h
      cases h
    · rw [h j hindex] at ho
      cases ho

/-- Every kept oneof has a member. -/
theorem exists_oneofOf? (h : i < m.keptOneofs.length) :
    ∃ f ∈ m.fields, m.oneofOf? f = some i := by
  have hkept := List.getElem?_eq_getElem h
  obtain ⟨-, f, hf, hplain, hindex⟩ := mem_keptOneofs.1 (List.mem_of_getElem? hkept)
  exact ⟨f, hf, oneofOf?_eq_some_iff.2 ⟨hplain, _, _, hkept, hindex⟩⟩

end MessageDecl

/-! ## Messages -/

namespace TypeTable

variable {t : TypeTable} {p : Placed MessageDecl} {type : MessageType}

theorem message_renumbers (h : t.message p = .ok type) :
    type.Renumbers p.decl (p.decl.keptOneofs.map Prod.swap) := by
  obtain ⟨fields, hfields, -, -, rfl⟩ := of_message h
  refine ⟨MessageDecl.isListing_keptOneofs, ?_, fun i hi => ?_, ?_⟩
  · rw [List.map_map, List.map_map]
    rfl
  · rw [List.length_map] at hi
    obtain ⟨decl, hdecl, hi⟩ := MessageDecl.exists_oneofOf? hi
    obtain ⟨f, hf, hfield⟩ := exists_mem_of_mapM_ok hfields hdecl
    exact ⟨f, hf, (field_oneof hfield).trans hi⟩
  · have hpairs := (List.forall₂_and_left p.decl.fields fields).2
      ⟨fun decl hdecl => hdecl, forall₂_of_mapM_ok hfields⟩
    refine hpairs.imp fun decl f hpair => ?_
    obtain ⟨hdecl, hfield⟩ := hpair
    obtain ⟨kind, cardinality, -, hsingular, rfl⟩ := of_field hfield
    refine ⟨rfl, fun i hi => ?_, MessageDecl.oneofOf?_eq_none_iff hdecl⟩
    dsimp only at hi
    obtain ⟨hplain, o, j, hkept, hindex⟩ := MessageDecl.oneofOf?_eq_some_iff.1 hi
    have ho := (MessageDecl.mem_keptOneofs.1 (List.mem_of_getElem? hkept)).1
    refine ⟨hsingular (by rw [hi]; rfl), hplain, j,
      ⟨o.name, oneofIdentifier (typeIdentifier p.scope.path) o.name⟩, o, ?_, ?_, hindex, ho, rfl⟩
    · rw [List.getElem?_map, hkept, Option.map_some]
    · rw [List.getElem?_map, hkept, Option.map_some, Prod.swap_prod_mk]

end TypeTable

/-- Every message of a schema that is made from declarations has the oneofs that its declaration
refers to, numbered anew. -/
theorem Schema.renumbers_ofFiles {files : List FileDecl} {schema : Schema}
    (h : Schema.ofFiles files = .ok schema) :
    ∃ items,
      IsListing (· < ·) (fun place m => FileDecl.DeclaresMessage files place m ∧
        m.decl.isMapEntry = false) items ∧
      List.Forall₂ (fun item type => type.fullName = item.2.fullName ∧
        ∃ kept, type.Renumbers item.2.decl kept) items schema.messages := by
  have hmessages := forall₂_of_mapM_ok (madeFrom_of_ofFiles h).messages
  obtain ⟨items, hitems, hsnd⟩ :=
    (FileDecl.lists_flatMap_placedMessages files).filter fun m => !m.decl.isMapEntry
  refine ⟨items, ⟨hitems.ascending, fun place m => ?_⟩, ?_⟩
  · rw [hitems.complete, Bool.not_eq_true']
  · rw [← hsnd, List.forall₂_map_left_iff] at hmessages
    refine hmessages.imp fun item type hp => ?_
    have hkept := TypeTable.message_renumbers hp
    obtain ⟨fields, -, -, -, rfl⟩ := TypeTable.of_message hp
    exact ⟨rfl, _, hkept⟩

/-- A message whose first oneof only records whether a field is set, and whose third is not used.
Two of its fields refer to oneofs that are not declared. -/
theorem Schema.renumbers_ofFiles_sparse :
    ∃ (files : List FileDecl) (schema : Schema), Schema.ofFiles files = .ok schema ∧
      schema.messages.map (fun m => (m.fields.map (·.oneof), m.oneofs.map (·.name)))
        = [([none, some 0, none, some 1, none, none, some 0], ["choice", "other"])] ∧
      ∃ items,
        IsListing (· < ·) (fun place m => FileDecl.DeclaresMessage files place m ∧
          m.decl.isMapEntry = false) items ∧
        List.Forall₂ (fun item type => type.fullName = item.2.fullName ∧
          ∃ kept, type.Renumbers item.2.decl kept) items schema.messages := by
  have hfiles : Schema.ofFiles
      [{ messages := [
          { name := "M"
            oneofs := [{ name := "_a" }, { name := "choice" }, { name := "unused" },
              { name := "other" }]
            fields := [
              { name := "a", type := some .bool, oneofIndex := some 0, isOptional := true },
              { name := "b", type := some .bool, oneofIndex := some 1 },
              { name := "c", type := some .bool, oneofIndex := some (-1) },
              { name := "d", type := some .bool, oneofIndex := some 3 },
              { name := "e", type := some .bool, oneofIndex := some 4 },
              { name := "f", type := some .bool },
              { name := "g", type := some .bool, oneofIndex := some 1 }] }] }]
      = .ok
        { sources := [""]
          enums := []
          messages := [
            ⟨"M", "M", [⟨"a", "a", .bool, .singular, none⟩, ⟨"b", "b", .bool, .singular, some 0⟩,
              ⟨"c", "c", .bool, .singular, none⟩, ⟨"d", "d", .bool, .singular, some 1⟩,
              ⟨"e", "e", .bool, .singular, none⟩, ⟨"f", "f", .bool, .singular, none⟩,
              ⟨"g", "g", .bool, .singular, some 0⟩],
              [⟨"choice", "MChoice"⟩, ⟨"other", "MOther"⟩]⟩] } := rfl
  exact ⟨_, _, hfiles, rfl, renumbers_ofFiles hfiles⟩

end ProtoJson
