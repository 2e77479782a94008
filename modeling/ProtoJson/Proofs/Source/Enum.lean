import ProtoJson.Proofs.Number.Digits
import ProtoJson.Proofs.Source.Reading
import ProtoJson.Proofs.Text.Quoted
import ProtoJson.Source.Enum

/-!
# Enums of generated source

The variants of an enum and its three tables are read off the steps that its source is laid out
from.
-/

namespace ProtoJson

open LayoutStep

/-! ## What is read -/

/-- A variant as it is declared. -/
structure VariantCode where
  name : String
  number : Int
  isDefault : Bool
  deriving DecidableEq, Repr

/-- An enum as its source has it: the variants, and the arms of the functions from numbers to
variants, from names to variants and from variants to names. -/
structure EnumCode where
  variants : List VariantCode
  ofNumber : List (Int × String)
  ofName : List (String × String)
  toName : List (String × String)
  deriving DecidableEq, Repr

namespace EnumCode

/-- The integer that a text writes, whatever its size. -/
def int? : List Char → Option Int
  | '-' :: ds => (IntegerKind.digits? ds).map fun n : Nat => -(n : Int)
  | ds => (IntegerKind.digits? ds).map fun n : Nat => (n : Int)

/-- The integer in front of a space, and what follows it. -/
def intPattern? (cs : List Char) : Option (Int × List Char) :=
  (int? (cs.takeWhile (· ≠ ' '))).map fun v => (v, cs.dropWhile (· ≠ ' '))

/-- The variant that a line declares. -/
def variant? (isDefault : Bool) (text : String) : Option VariantCode :=
  (between? " = " "," (String.ofList (text.toList.dropWhile (· ≠ ' ')))).bind fun number =>
    (int? number.toList).map fun v =>
      ⟨String.ofList (text.toList.takeWhile (· ≠ ' ')), v, isDefault⟩

/-- The variants that lines declare. `marked` says whether the line in front marks the first of them
as the default. -/
def variants? (marked : Bool) : List String → Option (List VariantCode)
  | [] => some []
  | text :: rest =>
    if text = "#[default]" then variants? true rest
    else (variant? marked text).bind fun v => (variants? false rest).map fun vs => v :: vs

/-- The pattern and the variant of an arm. -/
def arm? {α : Type} (pattern? : List Char → Option (α × List Char)) (text : String) :
    Option (α × String) :=
  (pattern? text.toList).bind fun (pattern, rest) =>
    (between? " => Some(Self::" ")," (String.ofList rest)).map fun variant => (pattern, variant)

/-- The arms of a function to variants. The last arm is for everything else, which has none. -/
def arms? {α : Type} (pattern? : List Char → Option (α × List Char)) (texts : List String) :
    Option (List (α × String)) :=
  if texts.getLast? = some "_ => None," then texts.dropLast.mapM (arm? pattern?) else none

/-- The variant and the name of an arm of the function to names. -/
def nameArm? (text : String) : Option (String × String) :=
  (text.toList.dropPrefix? "Self::".toList).bind fun cs =>
    ((cs.dropWhile (· ≠ ' ')).dropPrefix? " => ".toList).bind fun literal =>
      (unquote? literal).bind fun (name, rest) =>
        if rest = [','] then some (String.ofList (cs.takeWhile (· ≠ ' ')), name) else none

/-- The arms of the match in a function. -/
def matchLines (heading subject : String) (steps : List LayoutStep) : List String :=
  leadingLines (inside (· = "match " ++ subject ++ " \x7b") (inside (· = heading) steps))

/-- The arms of the function from numbers. -/
def ofNumber? (steps : List LayoutStep) : Option (List (Int × String)) :=
  arms? intPattern?
    (matchLines "fn from_i32(value: i32) -> ::core::option::Option<Self> \x7b" "value" steps)

/-- The arms of the function from names. -/
def ofName? (steps : List LayoutStep) : Option (List (String × String)) :=
  arms? unquote?
    (matchLines "fn from_str_name(name: &str) -> ::core::option::Option<Self> \x7b" "name" steps)

/-- The arms of the function to names. -/
def toName? (steps : List LayoutStep) : Option (List (String × String)) :=
  (matchLines "fn as_str_name(&self) -> &'static str \x7b" "self" steps).mapM nameArm?

/-- The enum that steps declare. -/
def read? (steps : List LayoutStep) : Option EnumCode := do
  let variants ← variants? false (leadingLines
    (inside (fun text => "pub enum ".toList.isPrefixOf text.toList) steps))
  let ofNumber ← ofNumber? steps
  let ofName ← ofName? steps
  let toName ← toName? steps
  return { variants, ofNumber, ofName, toName }

/-! ## Reading lines -/

theorem digits?_decimal (n : Nat) : IntegerKind.digits? (decimal n) = some n := by
  rw [IntegerKind.digits?, if_pos ⟨decimal_ne_nil n, all_isDigit_decimal n⟩, ofLongDigits_eq,
    ofDigits_decimal]

theorem int?_decimalInt (v : Int) : int? (decimalInt v) = some v := by
  unfold decimalInt
  split
  · next h =>
    rw [int?, digits?_decimal, Option.map_some, Option.some.injEq]
    omega
  · next h =>
    obtain ⟨c, r, hc⟩ := List.exists_cons_of_ne_nil (decimal_ne_nil v.natAbs)
    have hm : c ≠ '-' := by
      rintro rfl
      have hd := all_isDigit_decimal v.natAbs
      rw [hc] at hd
      exact absurd hd (by simp [isDigit])
    -- Only a minus in front is read in another way.
    have hint : int? (decimal v.natAbs) = (IntegerKind.digits? (decimal v.natAbs)).map
        fun n : Nat => (n : Int) := by
      rw [hc]
      unfold int?
      split
      · next heq => exact absurd (List.cons.inj heq).1 hm
      · rfl
    rw [hint, digits?_decimal, Option.map_some, Option.some.injEq]
    omega

theorem space_not_mem_decimalInt (v : Int) : ' ' ∉ decimalInt v := by
  intro h
  rcases mem_decimalInt h with h | h <;> exact absurd h (by decide)

theorem variant?_line {name : String} (h : ' ' ∉ name.toList) (isDefault : Bool) (v : Int) :
    variant? isDefault (name ++ " = " ++ String.ofList (decimalInt v) ++ ",")
      = some ⟨name, v, isDefault⟩ := by
  have htext : (name ++ " = " ++ String.ofList (decimalInt v) ++ ",").toList
      = name.toList ++ ' ' :: ("= ".toList ++ decimalInt v ++ [',']) := by simp
  obtain ⟨htake, hdrop⟩ := cut_word h ("= ".toList ++ decimalInt v ++ [','])
  have hnumber : String.ofList (' ' :: ("= ".toList ++ decimalInt v ++ [',']))
      = " = " ++ String.ofList (decimalInt v) ++ "," := by
    apply String.toList_injective
    simp
  rw [variant?, htext, htake, hdrop, hnumber, between?_eq, Option.bind_some,
    String.toList_ofList, int?_decimalInt, Option.map_some, String.ofList_toList]

theorem arm?_line {α : Type} {pattern? : List Char → Option (α × List Char)} {form : String}
    {pattern : α} (variant : String)
    (h : ∀ r, pattern? (form.toList ++ ' ' :: r) = some (pattern, ' ' :: r)) :
    arm? pattern? (form ++ " => Some(Self::" ++ variant ++ "),") = some (pattern, variant) := by
  have htext : (form ++ " => Some(Self::" ++ variant ++ "),").toList
      = form.toList ++ ' ' :: ("=> Some(Self::" ++ variant ++ "),").toList := by simp
  have hrest : String.ofList (' ' :: ("=> Some(Self::" ++ variant ++ "),").toList)
      = " => Some(Self::" ++ variant ++ ")," := by
    apply String.toList_injective
    simp
  rw [arm?, htext, h, Option.bind_some]
  dsimp only
  rw [hrest, between?_eq, Option.map_some]

theorem intPattern?_decimalInt (v : Int) (r : List Char) :
    intPattern? ((String.ofList (decimalInt v)).toList ++ ' ' :: r) = some (v, ' ' :: r) := by
  obtain ⟨htake, hdrop⟩ := cut_word (space_not_mem_decimalInt v) r
  rw [String.toList_ofList, intPattern?, htake, hdrop, int?_decimalInt, Option.map_some]

theorem nameArm?_line {variant : String} (h : ' ' ∉ variant.toList) (name : String) :
    nameArm? ("Self::" ++ variant ++ " => " ++ quoted name ++ ",") = some (variant, name) := by
  have htext : ("Self::" ++ variant ++ " => " ++ quoted name ++ ",").toList.dropPrefix?
      "Self::".toList = some (variant.toList ++ ' ' :: ("=> " ++ quoted name ++ ",").toList) :=
    List.dropPrefix?_eq_some_iff.2 ⟨"Self::".toList, by simp, by simp⟩
  obtain ⟨htake, hdrop⟩ := cut_word h ("=> " ++ quoted name ++ ",").toList
  have hliteral : (' ' :: ("=> " ++ quoted name ++ ",").toList).dropPrefix? " => ".toList
      = some ((quoted name).toList ++ [',']) :=
    List.dropPrefix?_eq_some_iff.2 ⟨" => ".toList, by simp, by simp⟩
  rw [nameArm?, htext, Option.bind_some, htake, hdrop, hliteral, Option.bind_some,
    unquote?_quoted, Option.bind_some]
  simp

/-! ## Reading lists of lines -/

theorem arms?_lines {α β : Type} {pattern? : List Char → Option (β × List Char)} {form : α → String}
    {pattern : α → β} {variant : α → String} (as : List α)
    (h : ∀ a r, pattern? ((form a).toList ++ ' ' :: r) = some (pattern a, ' ' :: r)) :
    arms? pattern? (as.map (fun a => form a ++ " => Some(Self::" ++ variant a ++ "),")
      ++ ["_ => None,"]) = some (as.map fun a => (pattern a, variant a)) := by
  rw [arms?, if_pos (by simp), List.dropLast_concat]
  exact mapM_map_of_eq_some fun a _ => arm?_line (variant a) (h a)

/-- The lines that declare a variant. -/
def variantLines (isDefault : Bool) (v : EnumValue) : List String :=
  (if isDefault then ["#[default]"] else []) ++
    [v.variant ++ " = " ++ String.ofList (decimalInt v.number) ++ ","]

theorem variantSteps_eq (isDefault : Bool) (v : EnumValue) :
    EnumType.variantSteps isDefault v = (variantLines isDefault v).map line := by
  cases isDefault <;> simp [EnumType.variantSteps, variantLines, toString]

theorem variants?_lines {isDefault : EnumValue → Bool} {vs : List EnumValue}
    (h : ∀ v ∈ vs, ' ' ∉ v.variant.toList) :
    variants? false (vs.flatMap fun v => variantLines (isDefault v) v)
      = some (vs.map fun v => ⟨v.variant, v.number, isDefault v⟩) := by
  induction vs with
  | nil => rfl
  | cons v vs ih =>
    -- The line of a variant has a space, so it is no mark.
    have hline :
        v.variant ++ " = " ++ String.ofList (decimalInt v.number) ++ "," ≠ "#[default]" := by
      intro heq
      have hmem :
          ' ' ∈ (v.variant ++ " = " ++ String.ofList (decimalInt v.number) ++ ",").toList := by
        simp
      rw [heq] at hmem
      exact absurd hmem (by decide)
    have hv := fun marked => variant?_line (h v List.mem_cons_self) marked v.number
    have hvs := ih fun w hw => h w (List.mem_cons_of_mem _ hw)
    rw [List.flatMap_cons, List.map_cons, variantLines]
    cases hdefault : isDefault v with
    | true =>
      rw [if_pos rfl, List.cons_append, List.nil_append, List.cons_append, List.cons_append,
        List.nil_append, variants?, if_pos rfl, variants?, if_neg hline, hv, Option.bind_some, hvs]
      rfl
    | false =>
      rw [if_neg (by decide), List.nil_append, List.cons_append, List.nil_append, variants?,
        if_neg hline, hv, Option.bind_some, hvs]
      rfl

end EnumCode

/-! ## Reading an enum -/

namespace EnumType

/-- The enum that the source of `e` declares. -/
def code (e : EnumType) (default : EnumValue) : EnumCode where
  variants := e.variants.map fun v => ⟨v.variant, v.number, v.number = default.number⟩
  ofNumber := e.numberTable
  ofName := e.nameTable default
  toName := e.variantTable

/-- An enum that declares something has a default. -/
theorem exists_defaultVariant? {e : EnumType} (h : e.values ≠ []) :
    ∃ default, e.defaultVariant? = some default := by
  obtain ⟨v, vs, hvalues⟩ := List.exists_cons_of_ne_nil h
  rw [defaultVariant?, variants, hvalues]
  cases (firstOfEach [] (v :: vs)).find? (·.number == 0) with
  | none => exact ⟨v, rfl⟩
  | some w => exact ⟨w, rfl⟩

variable {p : String → Bool} {heading subject : String} {arms : List (String × String)}
  {rest : List LayoutStep}

theorem lookupSteps_eq : lookupSteps heading subject arms =
    block heading (block ("match " ++ subject ++ " \x7b")
      ((arms.map (fun a => a.1 ++ " => Some(Self::" ++ a.2 ++ "),") ++ ["_ => None,"]).map
        line)) := by
  simp [lookupSteps, toString, Function.comp_def]

theorem inside_lookupSteps_of_not (h : p heading = false)
    (h' : p ("match " ++ subject ++ " \x7b") = false) :
    inside p (lookupSteps heading subject arms ++ rest) = inside p rest := by
  rw [lookupSteps_eq, inside_block_of_not h, inside_block_of_not h', inside_map_line]
  rfl

/-- The lines of a match in a function that `heading` begins. -/
theorem matchLines_block {steps : List LayoutStep} {texts : List String} (tail : List LayoutStep)
    (h : inside (· = heading) steps
      = block ("match " ++ subject ++ " \x7b") (texts.map line) ++ tail) :
    EnumCode.matchLines heading subject steps = texts := by
  rw [EnumCode.matchLines, h, inside_block (by simp), leadingLines_map_line]

/-- The lines of the match in a function that is laid out with `lookupSteps`. -/
theorem matchLines_lookupSteps {steps : List LayoutStep}
    (h : inside (· = heading) steps
      = inside (· = heading) (lookupSteps heading subject arms ++ rest)) :
    EnumCode.matchLines heading subject steps
      = arms.map (fun a => a.1 ++ " => Some(Self::" ++ a.2 ++ "),") ++ ["_ => None,"] := by
  refine matchLines_block (leave "\x7d" :: rest) ?_
  rw [h, lookupSteps_eq, inside_block (by simp)]

variable (c : SourceContext) {e : EnumType} {default : EnumValue}

theorem flatMap_variantSteps (p : EnumValue → Bool) (vs : List EnumValue) :
    (vs.flatMap fun v => variantSteps (p v) v)
      = (vs.flatMap fun v => EnumCode.variantLines (p v) v).map line := by
  simp only [EnumCode.variantSteps_eq, List.map_flatMap]

/-- The lines of the variants. -/
theorem variantLines_source (hdefault : e.defaultVariant? = some default) :
    leadingLines (inside (fun text => "pub enum ".toList.isPrefixOf text.toList) (e.source c))
      = e.variants.flatMap fun v => EnumCode.variantLines (v.number = default.number) v := by
  rw [source, hdefault]
  dsimp only
  rw [flatMap_variantSteps]
  simp only [List.append_assoc, List.cons_append, List.nil_append, inside_line]
  rw [inside_block (by simp [toString]), leadingLines_map_line]

/-- What the functions of an enum are laid out from. -/
def functionSteps (e : EnumType) (default : EnumValue) : List LayoutStep :=
  lookupSteps "fn from_i32(value: i32) -> ::core::option::Option<Self> \x7b" "value"
    (e.numberTable.map fun (n, v) => (String.ofList (decimalInt n), v)) ++
  blank :: (lookupSteps "fn from_str_name(name: &str) -> ::core::option::Option<Self> \x7b" "name"
    ((e.nameTable default).map fun (n, v) => (quoted n, v)) ++
  blank :: block "fn as_str_name(&self) -> &'static str \x7b"
    (block "match self \x7b"
      ((e.variantTable.map fun (v, n) => "Self::" ++ v ++ " => " ++ quoted n ++ ",").map line)))

/-- The functions are found behind the variants, and `heading` is that of a function. -/
theorem inside_source (hdefault : e.defaultVariant? = some default) (heading : String)
    (h : heading.toList.head? = some 'f') : ∃ tail,
      inside (· = heading) (e.source c)
        = inside (· = heading) (e.functionSteps default ++ tail) := by
  -- Whatever the names in them are, the two headings in front begin with another letter.
  have henum : decide (("pub enum " ++ e.typeName ++ " \x7b") = heading) = false := by
    refine decide_eq_false fun heq => ?_
    rw [← heq] at h
    simp at h
  have himpl : decide (("impl " ++ c.runtime ++ "::Enumeration for " ++ e.typeName ++ " \x7b")
      = heading) = false := by
    refine decide_eq_false fun heq => ?_
    rw [← heq] at h
    simp at h
  refine ⟨[leave "\x7d", blank], ?_⟩
  rw [source, hdefault]
  dsimp only
  rw [flatMap_variantSteps]
  simp only [List.append_assoc, List.cons_append, List.nil_append, inside_line]
  rw [inside_block_of_not henum, inside_map_line, inside_leave, inside_blank,
    inside_block_of_not himpl]
  simp [functionSteps, toString, Function.comp_def]

theorem ofNumber?_source (hdefault : e.defaultVariant? = some default) :
    EnumCode.ofNumber? (e.source c) = some e.numberTable := by
  obtain ⟨tail, htail⟩ := inside_source c hdefault
    "fn from_i32(value: i32) -> ::core::option::Option<Self> \x7b" rfl
  rw [functionSteps, List.append_assoc] at htail
  rw [EnumCode.ofNumber?, matchLines_lookupSteps htail, List.map_map]
  refine (EnumCode.arms?_lines e.numberTable
    fun a r => EnumCode.intPattern?_decimalInt a.1 r).trans ?_
  simp

theorem ofName?_source (hdefault : e.defaultVariant? = some default) :
    EnumCode.ofName? (e.source c) = some (e.nameTable default) := by
  obtain ⟨tail, htail⟩ := inside_source c hdefault
    "fn from_str_name(name: &str) -> ::core::option::Option<Self> \x7b" rfl
  rw [functionSteps, List.append_assoc, inside_lookupSteps_of_not rfl rfl, List.cons_append,
    inside_blank, List.append_assoc] at htail
  rw [EnumCode.ofName?, matchLines_lookupSteps htail, List.map_map]
  refine (EnumCode.arms?_lines (e.nameTable default)
    fun a r => unquote?_quoted a.1 (' ' :: r)).trans ?_
  simp

theorem toName?_source (hdefault : e.defaultVariant? = some default)
    (hspace : ∀ v ∈ e.variants, ' ' ∉ v.variant.toList) :
    EnumCode.toName? (e.source c) = some e.variantTable := by
  obtain ⟨tail, htail⟩ := inside_source c hdefault
    "fn as_str_name(&self) -> &'static str \x7b" rfl
  rw [functionSteps, List.append_assoc, inside_lookupSteps_of_not rfl rfl, List.cons_append,
    inside_blank, List.append_assoc, inside_lookupSteps_of_not rfl rfl, List.cons_append,
    inside_blank, inside_block rfl] at htail
  rw [EnumCode.toName?, matchLines_block _ htail]
  refine (mapM_map_of_eq_some (k := id) fun a ha => ?_).trans (by simp)
  obtain ⟨v, hv, rfl⟩ := List.mem_map.1 ha
  exact EnumCode.nameArm?_line (hspace v hv) v.name

/-- The source of an enum is read as the enum that it declares. -/
theorem read?_source (hdefault : e.defaultVariant? = some default)
    (hspace : ∀ v ∈ e.variants, ' ' ∉ v.variant.toList) :
    EnumCode.read? (e.source c) = some (e.code default) := by
  rw [EnumCode.read?, variantLines_source c hdefault, EnumCode.variants?_lines hspace,
    ofNumber?_source c hdefault, ofName?_source c hdefault, toName?_source c hdefault hspace]
  rfl

end EnumType

end ProtoJson
