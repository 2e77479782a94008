import Mathlib.Data.List.Flatten
import Mathlib.Data.List.Nodup
import ProtoJson.Proofs.Schema.Oneofs
import ProtoJson.Proofs.Text.WordCase

/-!
# Distinct names

What the language reserves is marked with a `#` in front or an underscore at the end, and no word
has either. So words that differ have identifiers that differ, and the checks of a schema, which
compare words, tell identifiers apart.
-/

namespace ProtoJson

/-! ## Identifiers of words -/

/-- A word that looks like no identifier with a mark. -/
structure IsBareWord (word : String) : Prop where
  hash : '#' ∉ word.toList
  underscore : word.toList.getLast? ≠ some '_'

/-- The word of an identifier. -/
def bareWord : List Char → List Char
  | 'r' :: '#' :: cs => cs
  | cs => if cs.getLast? = some '_' then cs.dropLast else cs

/-- A word is found again in its identifier. -/
theorem bareWord_identifier {word : String} (h : IsBareWord word) :
    bareWord (identifier word).toList = word.toList := by
  unfold identifier
  split
  · next hreserved =>
    have key : ∀ w ∈ reservedWords, w ≠ "_" → bareWord (w ++ "_").toList = w.toList := by decide
    refine key word hreserved ?_
    rintro rfl
    exact h.underscore rfl
  · split
    · have hmark : "r#".toList = ['r', '#'] := by simp
      rw [String.toList_append, hmark, List.cons_append, List.cons_append, List.nil_append,
        bareWord]
    · unfold bareWord
      split
      · next cs hcs =>
        refine absurd ?_ h.hash
        rw [hcs]
        simp
      · rw [if_neg h.underscore]

theorem identifier_inj {v w : String} (hv : IsBareWord v) (hw : IsBareWord w)
    (h : identifier v = identifier w) : v = w := by
  have hlist : v.toList = w.toList := by rw [← bareWord_identifier hv, h, bareWord_identifier hw]
  exact String.toList_injective hlist

/-- Identifiers are distinct just if their words are. -/
theorem nodup_map_identifier {ws : List String} (h : ∀ w ∈ ws, IsBareWord w) :
    (ws.map identifier).Nodup ↔ ws.Nodup :=
  ⟨.of_map _, .map_on fun v hv w hw => identifier_inj (h v hv) (h w hw)⟩

theorem isBareWord_snakeCase (name : String) : IsBareWord (snakeCase name) where
  hash h := by
    rcases mem_snakeCase h with h | h
    · exact absurd h (by decide)
    · exact absurd rfl (h.ne (by decide))
  underscore := getLast?_snakeCase name

theorem isBareWord_upperCamelCase (name : String) : IsBareWord (upperCamelCase name) where
  hash h := absurd rfl ((mem_upperCamelCase h).ne (by decide))
  underscore h := absurd rfl ((mem_upperCamelCase (List.mem_of_getLast? h)).ne (by decide))

/-! ## Checked names -/

theorem Schema.nodup_of_checkDistinct {entries : List (String × String)}
    (h : checkDistinct entries = .ok ()) : (entries.map Prod.fst).Nodup := by
  rw [← firstRepeat?_eq_none_iff]
  rw [checkDistinct] at h
  split at h
  · cases h
  · next hnone => exact hnone

namespace MessageType

variable {m : MessageType}

/-- The keys of the fields by a part of each. -/
theorem map_sublist_keys (fields : List Field) (key : Field → FieldKey)
    (h : ∀ f, List.Sublist [key f] ((Field.keys f).map Prod.fst)) :
    List.Sublist (fields.map key) ((fields.flatMap Field.keys).map Prod.fst) := by
  rw [List.map_flatMap, List.map_eq_flatMap]
  exact .flatMap_right fields fun f _ => h f

/-- The fields of a message that was checked have distinct words and distinct JSON names. -/
theorem nodup_of_checkFields (h : m.checkFields = .ok ()) :
    (m.fields.map fun f => snakeCase f.name).Nodup ∧ (m.fields.map (·.jsonName)).Nodup := by
  rw [checkFields] at h
  split at h
  · cases h
  next hnone =>
  have hkeys := (firstRepeat?_eq_none_iff _).1 hnone
  have hmembers := hkeys.sublist
    (map_sublist_keys m.fields (fun f => .member (snakeCase f.name)) fun f => by
      simp [Field.keys])
  have hjson := hkeys.sublist
    (map_sublist_keys m.fields (fun f => .json f.jsonName) fun f => by simp [Field.keys])
  refine ⟨.of_map FieldKey.member ?_, .of_map FieldKey.json ?_⟩
  · rwa [List.map_map]
  · rwa [List.map_map]

/-- The plain fields and the oneofs of a message that was checked are distinct members. -/
theorem nodup_of_checkMembers (h : m.checkMembers = .ok ()) :
    (m.plainFields.map Field.member ++ m.oneofs.map Oneof.member).Nodup := by
  rw [checkMembers] at h
  split at h
  · cases h
  next hnone =>
  have hwords := (firstRepeat?_eq_none_iff _).1 hnone
  have hmap : m.plainFields.map Field.member ++ m.oneofs.map Oneof.member
      = (m.memberNames.map Prod.fst).map identifier := by
    simp only [memberNames, List.map_append, List.map_map, Function.comp_def]
    rfl
  rw [hmap, nodup_map_identifier]
  · exact hwords
  · intro w hw
    have hsnake : ∃ name, w = snakeCase name := by
      simp only [memberNames, List.map_append, List.map_map, List.mem_append, List.mem_map,
        Function.comp_apply] at hw
      rcases hw with ⟨f, -, rfl⟩ | ⟨o, -, rfl⟩
      · exact ⟨f.name, rfl⟩
      · exact ⟨o.name, rfl⟩
    obtain ⟨name, rfl⟩ := hsnake
    exact isBareWord_snakeCase name

end MessageType

end ProtoJson
