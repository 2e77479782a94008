import ProtoJson.Proofs.Source.Message
import ProtoJson.Proofs.Text.CamelCase

/-!
# Variants of oneofs

The enum that stands for a oneof has a variant for each member, in order. Variants are named by the
names of the members in camel case, and nothing compares them: the checks of a schema compare names
in snake case, which tells more names apart.
-/

namespace ProtoJson

open LayoutStep

/-! ## What is read -/

namespace OneofCode

/-- The variant that a line declares. -/
def variant (text : String) : String := String.ofList (text.toList.takeWhile (· ≠ '('))

/-- The variants of an enum. -/
def variants (steps : List LayoutStep) : List String :=
  (leadingLines (inside (fun text => "pub enum ".toList.isPrefixOf text.toList) steps)).map variant

theorem variant_line {name : String} (h : '(' ∉ name.toList) (type : String) :
    variant (name ++ "(" ++ type ++ "),") = name := by
  have htext : (name ++ "(" ++ type ++ "),").toList
      = name.toList ++ '(' :: (type ++ "),").toList := by simp
  rw [variant, htext, (cut_word h _).1, String.ofList_toList]

end OneofCode

/-! ## Reading a oneof -/

namespace MessageType

/-- The variants of a oneof are those of its members. -/
theorem variants_oneofSteps (c : SourceContext) (m : MessageType) (o : Oneof) (index : Nat) :
    OneofCode.variants (m.oneofSteps c o index) = (m.members index).map Field.variant := by
  have hread : ((m.typedVariants c index).map fun e => e.1 ++ "(" ++ e.2 ++ "),").map
      OneofCode.variant = (m.members index).map Field.variant := by
    rw [typedVariants, List.map_map, List.map_map]
    refine List.map_congr_left fun f _ => ?_
    have hparen : '(' ∉ f.variant.toList := fun h => absurd (mem_variantIdentifier h) (by decide)
    rw [Function.comp_apply, Function.comp_apply, OneofCode.variant_line hparen]
  have hlines : ((m.typedVariants c index).map fun e => line s!"{e.1}({e.2}),")
      = ((m.typedVariants c index).map fun e => e.1 ++ "(" ++ e.2 ++ "),").map line := by
    rw [List.map_map]
    rfl
  rw [OneofCode.variants, oneofSteps]
  simp only [List.append_assoc, List.cons_append, List.nil_append, inside_line]
  rw [inside_block (by simp [toString]), hlines, leadingLines_map_line, hread]

end MessageType

/-! ## Distinct variants -/

/-- What it takes for the variants of a oneof to be distinct. -/
structure MessageType.VariantsNodupIff (m : MessageType) (index : Nat) : Prop where
  /-- They are so just if every member is found by its variant. -/
  find : ((m.members index).map Field.variant).Nodup ↔
    ∀ f ∈ m.members index, (m.members index).find? (·.variant == f.variant) = some f
  /-- They are so just if the names are distinct in camel case. -/
  camel : ((m.members index).map Field.variant).Nodup ↔
    ((m.members index).map fun f => upperCamelCase f.name).Nodup
  /-- For names of ASCII, they are so just if the names are distinct in snake case without the
  underscores in front of digits. -/
  ascii : (∀ f ∈ m.members index, IsAscii f.name) →
    (((m.members index).map Field.variant).Nodup ↔
      ((m.members index).map fun f => joinDigits (snakeCase f.name).toList).Nodup)

theorem Field.variant_eq_iff {f g : Field} :
    f.variant = g.variant ↔ upperCamelCase f.name = upperCamelCase g.name := by
  rw [variant, variant, variantIdentifier, variantIdentifier]
  exact ⟨identifier_inj (isBareWord_upperCamelCase f.name) (isBareWord_upperCamelCase g.name),
    congrArg identifier⟩

theorem MessageType.variantsNodupIff_of_checkFields {m : MessageType} (h : m.checkFields = .ok ())
    (index : Nat) : m.VariantsNodupIff index := by
  have hmembers : (m.members index).Nodup :=
    (nodup_of_checkFields h).1.of_map.filter _
  have hcamel : ((m.members index).map Field.variant).Nodup ↔
      ((m.members index).map fun f => upperCamelCase f.name).Nodup :=
    nodup_map_congr fun f _ g _ => Field.variant_eq_iff
  exact {
    find := nodup_map_iff_find? hmembers
    camel := hcamel
    ascii := fun hascii => hcamel.trans
      (nodup_map_congr fun f hf g hg => upperCamelCase_eq_iff (hascii f hf) (hascii g hg)) }

/-- The source of a oneof is a part of that of its message. -/
theorem MessageType.oneofSteps_isInfix (c : SourceContext) {m : MessageType} {o : Oneof}
    {index : Nat} (h : m.oneofs[index]? = some o) : m.oneofSteps c o index <:+: m.source c := by
  have hmem : (o, index) ∈ m.oneofs.zipIdx := List.mem_zipIdx_iff_getElem?.2 h
  have hflat := isInfix_flatMap hmem fun e => m.oneofSteps c e.1 e.2
  exact ((hflat.trans (List.suffix_append _ _).isInfix).trans
    (List.prefix_append _ _).isInfix).trans (List.prefix_append _ _).isInfix

/-- The enum of every oneof of a schema that is made from declarations has the variants of its
members. No check makes these distinct. -/
theorem Schema.variants_ofFiles {files : List FileDecl} {schema : Schema}
    (h : Schema.ofFiles files = .ok schema) (options : SourceOptions) {m : MessageType}
    (hm : m ∈ schema.messages) {o : Oneof} {index : Nat} (ho : m.oneofs[index]? = some o) :
    m.oneofSteps ⟨schema, options⟩ o index <:+: schema.sourceSteps options ∧
    OneofCode.variants (m.oneofSteps ⟨schema, options⟩ o index)
      = (m.members index).map Field.variant ∧
    m.VariantsNodupIff index := by
  obtain ⟨p, -, hp⟩ := of_mem_mapM_ok (madeFrom_of_ofFiles h).messages hm
  obtain ⟨-, -, hcheckFields, -, -⟩ := TypeTable.of_message hp
  exact ⟨(MessageType.oneofSteps_isInfix _ ho).trans (source_isInfix hm options),
    m.variants_oneofSteps _ o index, MessageType.variantsNodupIff_of_checkFields hcheckFields index⟩

/-- Names that differ in more than underscores in front of digits. -/
theorem Schema.variants_ofFiles_distinct :
    ∃ (files : List FileDecl) (schema : Schema) (m : MessageType) (o : Oneof),
      Schema.ofFiles files = .ok schema ∧ m ∈ schema.messages ∧ m.oneofs[0]? = some o ∧
      OneofCode.variants (m.oneofSteps ⟨schema, {}⟩ o 0) = ["A1", "AB", "Self_"] ∧
      m.oneofSteps ⟨schema, {}⟩ o 0 <:+: schema.sourceSteps {} ∧ m.VariantsNodupIff 0 ∧
      ((m.members 0).map Field.variant).Nodup := by
  have hfiles : Schema.ofFiles
      [{ messages := [
          { name := "M"
            oneofs := [{ name := "o" }]
            fields := [
              { name := "a_1", type := some .bool, oneofIndex := some 0 },
              { name := "a_b", type := some .bool, oneofIndex := some 0 },
              { name := "self", type := some .bool, oneofIndex := some 0 }] }] }]
      = .ok
        { sources := [""]
          enums := []
          messages := [
            ⟨"M", "M", [⟨"a_1", "a1", .bool, .singular, some 0⟩,
              ⟨"a_b", "aB", .bool, .singular, some 0⟩,
              ⟨"self", "self", .bool, .singular, some 0⟩], [⟨"o", "MO"⟩]⟩] } := rfl
  have honeof : [(⟨"o", "MO"⟩ : Oneof)][0]? = some ⟨"o", "MO"⟩ := rfl
  obtain ⟨hpart, hvariants, hdistinct⟩ := variants_ofFiles hfiles {} List.mem_cons_self honeof
  exact ⟨_, _, _, _, hfiles, List.mem_cons_self, rfl, hvariants, hpart, hdistinct, by decide⟩

/-- Names that differ in snake case and as JSON names may give one variant twice. -/
theorem Schema.variants_ofFiles_clash :
    ∃ (schema : Schema) (m : MessageType) (o : Oneof),
      Schema.ofFiles
        [{ messages := [
            { name := "M"
              oneofs := [{ name := "o" }]
              fields := [
                { name := "_a1", type := some .int32, oneofIndex := some 0 },
                { name := "a_1", type := some .int32, oneofIndex := some 0 }] }] }]
        = .ok schema ∧
      m ∈ schema.messages ∧ m.oneofs[0]? = some o ∧
      (m.members 0).map (fun f => (f.name, snakeCase f.name, f.jsonName))
        = [("_a1", "a1", "A1"), ("a_1", "a_1", "a1")] ∧
      OneofCode.variants (m.oneofSteps ⟨schema, {}⟩ o 0) = ["A1", "A1"] ∧
      ¬(OneofCode.variants (m.oneofSteps ⟨schema, {}⟩ o 0)).Nodup := by
  refine ⟨⟨[""], [],
    [⟨"M", "M", [⟨"_a1", "A1", .integer .int32, .singular, some 0⟩,
      ⟨"a_1", "a1", .integer .int32, .singular, some 0⟩], [⟨"o", "MO"⟩]⟩]⟩,
    _, _, rfl, List.mem_cons_self, rfl, rfl, MessageType.variants_oneofSteps _ _ _ 0, ?_⟩
  rw [MessageType.variants_oneofSteps]
  decide

end ProtoJson
