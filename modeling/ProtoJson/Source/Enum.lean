import ProtoJson.Number.Digits
import ProtoJson.Schema.Basic
import ProtoJson.Source.Layout
import ProtoJson.Source.Value

/-!
# Enums in generated source

An enum type with one variant for each number, and its three tables: from numbers to variants, from
names to variants, and from variants to names.
-/

namespace ProtoJson

open LayoutStep

namespace EnumType

/-- The first value of each number that is not in `seen`, the list of all numbers so far. -/
def firstOfEach (seen : List Int) : List EnumValue → List EnumValue
  | [] => []
  | v :: vs =>
    if v.number ∈ seen then firstOfEach (v.number :: seen) vs
    else v :: firstOfEach (v.number :: seen) vs

/-- The values that get a variant: aliases are left out. -/
def variants (e : EnumType) : List EnumValue := firstOfEach [] e.values

/-- The variant that is the default: that of number zero, or else the first. -/
def defaultVariant? (e : EnumType) : Option EnumValue :=
  (e.variants.find? (·.number == 0)).or e.variants.head?

/-- The variant that each number stands for. -/
def numberTable (e : EnumType) : List (Int × String) :=
  e.variants.map fun v => (v.number, v.variant)

/-- The variant that each name stands for. Aliases stand for the variant of their number, which
there always is. -/
def nameTable (e : EnumType) (default : EnumValue) : List (String × String) :=
  e.values.map fun v => (v.name, ((e.variants.find? (·.number == v.number)).getD default).variant)

/-- The name of each variant. -/
def variantTable (e : EnumType) : List (String × String) :=
  e.variants.map fun v => (v.variant, v.name)

/-- The declaration of a variant. The default one is marked. -/
def variantSteps (isDefault : Bool) (v : EnumValue) : List LayoutStep :=
  (if isDefault then [line "#[default]"] else []) ++
    [line s!"{v.variant} = {String.ofList (decimalInt v.number)},"]

/-- A function from a number or a name to a variant: `arms` pairs patterns with variants. -/
def lookupSteps (heading subject : String) (arms : List (String × String)) : List LayoutStep :=
  block heading
    (block s!"match {subject} \x7b"
      (arms.map (fun (pattern, variant) => line s!"{pattern} => Some(Self::{variant}),") ++
        [line "_ => None,"]))

/-- The source of an enum. -/
def source (c : SourceContext) (e : EnumType) : List LayoutStep :=
  match e.defaultVariant? with
  | none => []
  | some default =>
    [line s!"/// `{e.fullName}`",
      line "#[derive(Debug, Clone, Copy, PartialEq, Eq, Hash, PartialOrd, Ord, Default)]",
      line "#[repr(i32)]"] ++
    block s!"pub enum {e.typeName} \x7b"
      (e.variants.flatMap fun v => variantSteps (v.number = default.number) v) ++
    [blank] ++
    block s!"impl {c.runtime}::Enumeration for {e.typeName} \x7b"
      ([line s!"const NAME: &'static str = {quoted e.fullName};", blank] ++
        lookupSteps "fn from_i32(value: i32) -> ::core::option::Option<Self> \x7b" "value"
          (e.numberTable.map fun (n, v) => (String.ofList (decimalInt n), v)) ++
        [blank] ++
        lookupSteps "fn from_str_name(name: &str) -> ::core::option::Option<Self> \x7b" "name"
          ((e.nameTable default).map fun (n, v) => (quoted n, v)) ++
        [blank] ++
        block "fn as_str_name(&self) -> &'static str \x7b"
          (block "match self \x7b"
            (e.variantTable.map fun (v, n) => line s!"Self::{v} => {quoted n},"))) ++
    [blank]

end EnumType

end ProtoJson
