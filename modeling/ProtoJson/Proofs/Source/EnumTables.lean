import ProtoJson.Proofs.Schema.Keys
import ProtoJson.Proofs.Schema.Resolution
import ProtoJson.Proofs.Source.Enum
import ProtoJson.Proofs.Text.WordCase
import ProtoJson.Source.File

/-!
# The tables of enums

Aliases are left out twice: when a schema is made, where variants of one name are refused, and when
the source of an enum is laid out, where the variants are declared. The two go over the values in
different ways, and both keep the first value of each number. So the variants of a schema that was
accepted have distinct names, and the three tables of every enum agree with each other and with the
values that the enum is declared with.
-/

namespace ProtoJson

/-- The variants and the tables of an enum are those of the values that it is declared with. -/
structure EnumCode.Tabulates (values : List EnumValueDecl) (code : EnumCode) : Prop where
  /-- There is one variant for each number, in the order in which the numbers are declared. -/
  numbers : code.variants.map (·.number) = (values.map (·.number)).eraseDups
  /-- A variant is named for the first value of its number. -/
  names : ∀ v ∈ code.variants, ∃ first, values.find? (·.number == v.number) = some first ∧
    v.name = variantIdentifier first.name
  distinct : (code.variants.map (·.name)).Nodup
  /-- One variant is the default: that of number zero, or else that of the first value. -/
  default : ∃ d, code.variants.filter (·.isDefault) = [d] ∧
    some d.number = if 0 ∈ values.map (·.number) then some 0 else (values.map (·.number)).head?
  ofNumber : ∀ n name, code.ofNumber.lookup n = some name ↔
    ∃ v ∈ code.variants, v.number = n ∧ v.name = name
  /-- A name, which may be that of an alias, stands for the variant of its number. -/
  ofName : ∀ name variant, code.ofName.lookup name = some variant ↔
    ∃ v ∈ values, v.name = name ∧ code.ofNumber.lookup v.number = some variant
  ofName_toName : ∀ v ∈ code.variants,
    (code.toName.lookup v.name).bind (fun name => code.ofName.lookup name) = some v.name
  ofNumber_number : ∀ v ∈ code.variants, code.ofNumber.lookup v.number = some v.name

namespace EnumType

/-! ## The first value of each number -/

theorem firstOfEach_congr {seen seen' : List Int} (h : ∀ n, n ∈ seen ↔ n ∈ seen')
    (vs : List EnumValue) : firstOfEach seen vs = firstOfEach seen' vs := by
  induction vs generalizing seen seen' with
  | nil => rfl
  | cons v vs ih =>
    have htail : firstOfEach (v.number :: seen) vs = firstOfEach (v.number :: seen') vs :=
      ih fun n => by rw [List.mem_cons, List.mem_cons, h]
    rw [firstOfEach, firstOfEach, htail]
    simp only [h]

/-- A number that was seen before may be seen again. -/
theorem firstOfEach_cons_of_mem {seen : List Int} {n : Int} (h : n ∈ seen) (vs : List EnumValue) :
    firstOfEach (n :: seen) vs = firstOfEach seen vs :=
  firstOfEach_congr (fun m => by rw [List.mem_cons, or_iff_right_of_imp (· ▸ h)]) vs

/-- What is kept is the first value of each number that was not seen before. -/
theorem mem_firstOfEach_iff {seen : List Int} {vs : List EnumValue} {v : EnumValue} :
    v ∈ firstOfEach seen vs ↔
      v.number ∉ seen ∧ vs.find? (·.number == v.number) = some v := by
  induction vs generalizing seen with
  | nil => simp [firstOfEach]
  | cons w vs ih =>
    rw [firstOfEach]
    -- The number of `w` counts as seen from here on, so where `v` has it only `w` can be kept.
    by_cases hseen : w.number ∈ seen
    · rw [if_pos hseen, firstOfEach_cons_of_mem hseen, ih]
      refine and_congr_right fun h => ?_
      have hne : w.number ≠ v.number := fun heq => h (heq ▸ hseen)
      rw [List.find?_cons_of_neg (by simpa using hne)]
    · rw [if_neg hseen, List.mem_cons, ih]
      by_cases heq : w.number = v.number
      · rw [List.find?_cons_of_pos (by simpa using heq), Option.some.injEq, heq,
          or_iff_left fun h => h.1 List.mem_cons_self, eq_comm, iff_and_self]
        exact fun _ => heq ▸ hseen
      · have hne : v ≠ w := fun h => heq (h ▸ rfl)
        rw [List.find?_cons_of_neg (by simpa using heq), or_iff_right hne, List.mem_cons,
          or_iff_right (Ne.symm heq)]

/-- The numbers of what is kept, in the order in which they are seen first. -/
theorem map_number_firstOfEach (seen : List Int) (vs : List EnumValue) :
    (firstOfEach seen vs).map (·.number)
      = ((vs.map (·.number)).filter (· ∉ seen)).eraseDups := by
  induction vs generalizing seen with
  | nil => rfl
  | cons v vs ih =>
    rw [firstOfEach, List.map_cons]
    split
    · next h =>
      rw [firstOfEach_cons_of_mem h, ih, List.filter_cons_of_neg (by simpa using h)]
    · next h =>
      rw [List.map_cons, ih, List.filter_cons_of_pos (by simpa using h), List.eraseDups_cons,
        List.filter_filter]
      congr 3
      funext n
      rw [Bool.eq_iff_iff]
      simp

/-- No number is kept twice. -/
theorem nodup_number_firstOfEach (seen : List Int) (vs : List EnumValue) :
    ((firstOfEach seen vs).map (·.number)).Nodup := by
  induction vs generalizing seen with
  | nil => exact List.nodup_nil
  | cons v vs ih =>
    rw [firstOfEach]
    split
    · exact ih _
    · rw [List.map_cons, List.nodup_cons]
      refine ⟨fun hmem => ?_, ih _⟩
      obtain ⟨w, hw, heq⟩ := List.mem_map.1 hmem
      exact (mem_firstOfEach_iff.1 hw).1 (heq ▸ List.mem_cons_self)

/-- The search for a variant that two values would get goes over the values that are kept. -/
theorem clashAfter?_eq_repeatAfter? (numbers : List Int) (variants : List (String × String))
    (vs : List EnumValue) : clashAfter? numbers variants vs
      = repeatAfter? variants ((firstOfEach numbers vs).map fun v => (v.variant, v.name)) := by
  induction vs generalizing numbers variants with
  | nil => rfl
  | cons v vs ih =>
    rw [clashAfter?, firstOfEach]
    split
    -- The search leaves the numbers as they are here; `firstOfEach` notes the number once more.
    · next h => rw [ih, firstOfEach_cons_of_mem h]
    · rw [List.map_cons, repeatAfter?, ih]
      cases variants.find? (·.1 = v.variant) <;> rfl

/-! ## Variants -/

variable (e : EnumType)

/-- The variants are the values that numbers stand for. -/
theorem mem_variants_iff {v : EnumValue} : v ∈ e.variants ↔ e.ofNumber? v.number = some v := by
  rw [variants, mem_firstOfEach_iff, and_iff_right List.not_mem_nil, ofNumber?]

/-- There is a variant for every value. -/
theorem ofNumber?_of_mem {e : EnumType} {v : EnumValue} (h : v ∈ e.values) :
    ∃ first, e.ofNumber? v.number = some first := by
  rw [← Option.isSome_iff_exists, ofNumber?, List.find?_isSome]
  exact ⟨v, h, beq_self_eq_true v.number⟩

theorem map_number_variants : e.variants.map (·.number) = (e.values.map (·.number)).eraseDups := by
  rw [variants, map_number_firstOfEach]
  simp

/-- A number has the variant that the codec takes it for. -/
theorem find?_variants (n : Int) : e.variants.find? (·.number == n) = e.ofNumber? n := by
  cases hfind : e.variants.find? (·.number == n) with
  | some v =>
    obtain rfl : v.number = n := by simpa using List.find?_some hfind
    exact ((mem_variants_iff e).1 (List.mem_of_find?_eq_some hfind)).symm
  | none =>
    -- A value of number `n` would be the variant of its number.
    cases hvalue : e.ofNumber? n with
    | none => rfl
    | some v =>
      obtain rfl := number_of_ofNumber? hvalue
      exact absurd (List.find?_eq_none.1 hfind v ((mem_variants_iff e).2 hvalue)) (by simp)

/-- The default is the one that the codec takes. -/
theorem defaultVariant?_eq_default? : e.defaultVariant? = e.default? := by
  have hhead : e.variants.head? = e.values.head? := by
    rw [variants]
    cases e.values <;> rfl
  rw [defaultVariant?, default?, find?_variants, hhead]

theorem clash?_eq_firstRepeat? :
    e.clash? = firstRepeat? (e.variants.map fun v => (v.variant, v.name)) :=
  clashAfter?_eq_repeatAfter? [] [] e.values

theorem nodup_variant_of_clash? (h : e.clash? = none) : (e.variants.map (·.variant)).Nodup := by
  rw [clash?_eq_firstRepeat?, firstRepeat?_eq_none_iff, List.map_map] at h
  exact h

/-! ## Tables -/

theorem lookup_map_eq {α β γ : Type} [BEq β] [LawfulBEq β] (key : α → β) (value : α → γ)
    (as : List α) (b : β) :
    (as.map fun a => (key a, value a)).lookup b = (as.find? (key · == b)).map value := by
  induction as with
  | nil => rfl
  | cons a as ih =>
    rw [List.map_cons, List.lookup_cons, List.find?_cons, ih, BEq.comm]
    cases key a == b <;> rfl

/-- The table of numbers has the variants that the codec takes them for. -/
theorem lookup_numberTable (n : Int) :
    e.numberTable.lookup n = (e.ofNumber? n).map (·.variant) := by
  rw [numberTable, lookup_map_eq, find?_variants]

theorem lookup_numberTable_eq_some_iff {n : Int} {name : String} :
    e.numberTable.lookup n = some name ↔ ∃ v ∈ e.variants, v.number = n ∧ v.variant = name := by
  rw [lookup_numberTable, Option.map_eq_some_iff]
  constructor
  · rintro ⟨v, hv, rfl⟩
    obtain rfl := number_of_ofNumber? hv
    exact ⟨v, (mem_variants_iff e).2 hv, rfl, rfl⟩
  · rintro ⟨v, hv, rfl, rfl⟩
    exact ⟨v, (mem_variants_iff e).1 hv, rfl⟩

/-- The table of names has the variants that the codec takes them for. -/
theorem lookup_nameTable (default : EnumValue) (name : String) :
    (e.nameTable default).lookup name = (e.ofName? name).map (·.variant) := by
  rw [nameTable, lookup_map_eq, ofName?]
  simp only [find?_variants]
  cases hfind : e.values.find? (·.name == name) with
  | none => rfl
  | some v =>
    -- There is a value of the number of `v`, so the default is not used.
    obtain ⟨w, hw⟩ := ofNumber?_of_mem (List.mem_of_find?_eq_some hfind)
    rw [Option.map_some, Option.bind_some, hw, Option.getD_some, Option.map_some]

/-- A variant has the name of the value it is. -/
theorem lookup_variantTable (h : e.clash? = none) {v : EnumValue} (hv : v ∈ e.variants) :
    e.variantTable.lookup v.variant = some v.name := by
  rw [variantTable, lookup_map_eq, find?_of_mem (nodup_variant_of_clash? e h) hv,
    Option.map_some]

/-- A name stands for a variant just if it is declared for the number of the variant. -/
theorem lookup_nameTable_eq_some_iff {e : EnumType} (h : (e.values.map (·.name)).Nodup)
    (default : EnumValue) {name variant : String} :
    (e.nameTable default).lookup name = some variant ↔
      ∃ v ∈ e.values, v.name = name ∧ e.numberTable.lookup v.number = some variant := by
  rw [lookup_nameTable]
  constructor
  · intro hlookup
    obtain ⟨first, hfirst, hvariant⟩ := Option.map_eq_some_iff.1 hlookup
    obtain ⟨v, hfind, hnumber⟩ := Option.bind_eq_some_iff.1 hfirst
    have hname : v.name = name := by simpa using List.find?_some hfind
    refine ⟨v, List.mem_of_find?_eq_some hfind, hname, ?_⟩
    rw [lookup_numberTable, hnumber, Option.map_some, hvariant]
  · rintro ⟨v, hv, rfl, hlookup⟩
    rwa [ofName?_of_mem h hv, ← lookup_numberTable]

/-! ## The default -/

theorem mem_variants_of_default? {e : EnumType} {default : EnumValue}
    (h : e.default? = some default) : default ∈ e.variants := by
  rw [mem_variants_iff]
  rcases Option.or_eq_some_iff.1 h with hzero | ⟨-, hhead⟩
  · rw [number_of_ofNumber? hzero, hzero]
  · obtain ⟨vs, hvs⟩ := List.head?_eq_some_iff.1 hhead
    rw [ofNumber?, hvs, List.find?_cons_of_pos (by simp)]

theorem number_default? : e.default?.map (·.number) =
    if 0 ∈ e.values.map (·.number) then some 0 else (e.values.map (·.number)).head? := by
  rw [default?]
  split
  · next h =>
    obtain ⟨v, hv, hzero⟩ := List.mem_map.1 h
    obtain ⟨first, hfirst⟩ := ofNumber?_of_mem hv
    rw [hzero] at hfirst
    rw [hfirst, Option.some_or, Option.map_some, number_of_ofNumber? hfirst]
  · next h =>
    have hnone : e.ofNumber? 0 = none := List.find?_eq_none.2 fun v hv heq =>
      h (List.mem_map.2 ⟨v, hv, beq_iff_eq.1 heq⟩)
    rw [hnone, Option.none_or, List.head?_map]

/-! ## Consistency -/

/-- The tables of an enum without clashes are those of the values that it is declared with. -/
theorem tabulates_code {values : List EnumValueDecl} {e : EnumType} {default : EnumValue}
    (hvalues : e.values = values.map fun v => ⟨v.name, v.number, variantIdentifier v.name⟩)
    (hclash : e.clash? = none) (hdefault : e.defaultVariant? = some default)
    (hnames : (values.map (·.name)).Nodup) : (e.code default).Tabulates values := by
  rw [defaultVariant?_eq_default?] at hdefault
  have hfirst : ∀ n, e.ofNumber? n = (values.find? (·.number == n)).map fun v =>
      ⟨v.name, v.number, variantIdentifier v.name⟩ := by
    intro n
    rw [ofNumber?, hvalues, List.find?_map]
    rfl
  have hnumbers : e.values.map (·.number) = values.map (·.number) := by
    rw [hvalues, List.map_map]
    rfl
  have hnodup : (e.values.map (·.name)).Nodup := by
    rw [hvalues, List.map_map]
    exact hnames
  exact {
    numbers := by
      rw [code, List.map_map, ← hnumbers]
      exact map_number_variants e
    names := by
      rintro v hv
      obtain ⟨w, hw, rfl⟩ := List.mem_map.1 hv
      have hnumber := (mem_variants_iff e).1 hw
      rw [hfirst] at hnumber
      obtain ⟨first, hfind, rfl⟩ := Option.map_eq_some_iff.1 hnumber
      refine ⟨first, hfind, ?_⟩
      dsimp only
    distinct := by
      rw [code, List.map_map]
      exact nodup_variant_of_clash? e hclash
    default := by
      refine ⟨⟨default.variant, default.number, true⟩, ?_, ?_⟩
      · have hsingle := filter_eq_singleton
          (nodup_number_firstOfEach [] e.values) (mem_variants_of_default? hdefault)
        rw [code, List.filter_map]
        refine (congrArg (List.map _) hsingle).trans ?_
        simp
      · have hnumber := number_default? e
        rw [hdefault, Option.map_some, hnumbers] at hnumber
        exact hnumber
    ofNumber := by
      intro n name
      refine (lookup_numberTable_eq_some_iff e).trans ?_
      simp only [code, List.mem_map, exists_exists_and_eq_and]
    ofName := by
      intro name variant
      refine (lookup_nameTable_eq_some_iff hnodup default).trans ?_
      simp only [hvalues, code, List.mem_map, exists_exists_and_eq_and]
    ofName_toName := by
      intro v hv
      obtain ⟨w, hw, rfl⟩ := List.mem_map.1 hv
      have hnumber := (mem_variants_iff e).1 hw
      rw [code, lookup_variantTable e hclash hw, Option.bind_some, lookup_nameTable,
        ofName?_of_mem hnodup (List.mem_of_find?_eq_some hnumber), hnumber, Option.map_some]
    ofNumber_number := by
      intro v hv
      obtain ⟨w, hw, rfl⟩ := List.mem_map.1 hv
      rw [code, lookup_numberTable, (mem_variants_iff e).1 hw, Option.map_some] }

end EnumType

open FileDecl

/-- Every enum that is declared in files a schema is made from has a source, and the source has the
variants and the tables of the values that are declared. -/
theorem Schema.tabulates_ofFiles {files : List FileDecl} {schema : Schema}
    (h : Schema.ofFiles files = .ok schema) (options : SourceOptions) {place : List Nat × Nat}
    {p : Placed EnumDecl} (hp : DeclaresEnum files place p)
    (hnames : (p.decl.values.map (·.name)).Nodup) :
    ∃ e ∈ schema.enums, e.fullName = p.fullName ∧
      e.source ⟨schema, options⟩ <:+: schema.sourceSteps options ∧
      ∃ code, EnumCode.read? (e.source ⟨schema, options⟩) = some code ∧
        code.Tabulates p.decl.values := by
  have hmem := (lists_flatMap_placedEnums files).mem_iff.2 ⟨place, hp⟩
  obtain ⟨e, he, hmade⟩ := exists_mem_of_mapM_ok (madeFrom_of_ofFiles h).enums hmem
  obtain ⟨hne, hclash, heq⟩ := Placed.of_enumType hmade
  have hvalues := congrArg EnumType.values heq
  dsimp only at hvalues
  have hne : e.values ≠ [] := by
    rw [hvalues]
    simpa using hne
  obtain ⟨default, hdefault⟩ := EnumType.exists_defaultVariant? hne
  refine ⟨e, he, congrArg EnumType.fullName heq, ?_, e.code default, ?_,
    EnumType.tabulates_code hvalues hclash hdefault hnames⟩
  · exact (isInfix_flatMap he (EnumType.source ⟨schema, options⟩)).trans (List.infix_append _ _ _)
  · refine EnumType.read?_source _ hdefault fun v hv => ?_
    have hv := List.mem_of_find?_eq_some ((EnumType.mem_variants_iff e).1 hv)
    rw [hvalues] at hv
    obtain ⟨decl, -, rfl⟩ := List.mem_map.1 hv
    dsimp only
    exact fun hspace => absurd (mem_variantIdentifier hspace) (by decide)

/-- The default need not be declared first, and an alias stands for a variant of another name. -/
theorem Schema.tabulates_ofFiles_alias :
    ∃ (files : List FileDecl) (schema : Schema) (e : EnumType) (code : EnumCode),
      Schema.ofFiles files = .ok schema ∧ schema.enums = [e] ∧
      EnumCode.read? (e.source ⟨schema, {}⟩) = some code ∧
      code.Tabulates [⟨"LOW", -1⟩, ⟨"NONE", 0⟩, ⟨"LEAST", -1⟩] ∧
      code.variants = [⟨"Low", -1, false⟩, ⟨"None", 0, true⟩] ∧
      code.ofName.lookup "LEAST" = some "Low" := by
  have hfiles : Schema.ofFiles
      [{ enums := [{ name := "E", values := [⟨"LOW", -1⟩, ⟨"NONE", 0⟩, ⟨"LEAST", -1⟩] }] }]
      = .ok
        { sources := [""]
          enums := [⟨"E", "E", [⟨"LOW", -1, "Low"⟩, ⟨"NONE", 0, "None"⟩, ⟨"LEAST", -1, "Least"⟩]⟩]
          messages := [] } := rfl
  obtain ⟨e, he, -, -, code, hread, htables⟩ :=
    tabulates_ofFiles hfiles {} (.mk (.file (i := 0) rfl) (k := 0) rfl) (by decide)
  rw [List.mem_singleton] at he
  subst he
  have hdefault : EnumType.defaultVariant?
      ⟨"E", "E", [⟨"LOW", -1, "Low"⟩, ⟨"NONE", 0, "None"⟩, ⟨"LEAST", -1, "Least"⟩]⟩
      = some ⟨"NONE", 0, "None"⟩ := rfl
  cases (EnumType.read?_source _ hdefault (by decide)).symm.trans hread
  exact ⟨_, _, _, _, hfiles, rfl, hread, htables, rfl, rfl⟩

end ProtoJson
