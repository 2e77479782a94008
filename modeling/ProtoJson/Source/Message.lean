import ProtoJson.Schema.Identifier
import ProtoJson.Source.Layout
import ProtoJson.Source.Value

/-!
# Messages in generated source

The type of a message, the enums that stand for its oneofs, and its functions: taking an idle
message from a pool, and testing whether a plain field is left out of the output.
-/

namespace ProtoJson.MessageType

open LayoutStep

/-- The members of a message type: the plain fields and then the oneofs, each with its type. -/
def typedMembers (c : SourceContext) (m : MessageType) : List (String × String) :=
  m.plainFields.map (fun f => (f.member, c.fieldType f)) ++
    m.oneofs.map fun o => (o.member, s!"::core::option::Option<{o.typeName}>")

/-- The declaration of a message type. -/
def typeSteps (c : SourceContext) (m : MessageType) : List LayoutStep :=
  [line s!"/// `{m.fullName}`", line "#[derive(Debug, Clone, Default, PartialEq)]"] ++
    (if m.fields.isEmpty then [line s!"pub struct {m.typeName};"]
    else block s!"pub struct {m.typeName} \x7b"
      ((m.typedMembers c).map fun (name, type) => line s!"pub {name}: {type},")) ++
    [blank]

/-! ## Oneofs -/

/-- The variants of a oneof, each with the type it holds. -/
def typedVariants (c : SourceContext) (m : MessageType) (index : Nat) : List (String × String) :=
  (m.members index).map fun f => (f.variant, c.elementType f.kind)

/-- An arm that gives the message in a variant back to its pool. -/
def recycleArm (c : SourceContext) (f : Field) : LayoutStep :=
  line (s!"Self::{f.variant}(v) => " ++ c.recycle f.kind "v" ++ ",")

/-- The function that gives the message in a oneof back to its pool. Where one member of several
holds messages, it tests for that member. -/
def recycleOneof (c : SourceContext) (members : List Field) : List LayoutStep :=
  match members.filter (·.kind.isMessage) with
  | [] => [line s!"pub fn destruct(self, _pools: &{c.pools}) \x7b\x7d"]
  | f :: fs =>
    block s!"pub fn destruct(self, pools: &{c.pools}) \x7b"
      (if fs.isEmpty ∧ 1 < members.length then
        block s!"if let Self::{f.variant}(v) = self \x7b" [line (c.recycle f.kind "v" ++ ";")]
      else
        block "match self \x7b"
          ((f :: fs).map (recycleArm c) ++
            if (f :: fs).length < members.length then [line "_ => \x7b\x7d"] else []))

/-- The enum that stands for the oneof `o`, whose index is `index`. -/
def oneofSteps (c : SourceContext) (m : MessageType) (o : Oneof) (index : Nat) : List LayoutStep :=
  [line s!"/// `{m.fullName}.{o.name}`", line "#[derive(Debug, Clone, PartialEq)]"] ++
    block s!"pub enum {o.typeName} \x7b"
      ((m.typedVariants c index).map fun (variant, type) => line s!"{variant}({type}),") ++
    [blank] ++
    block s!"impl {o.typeName} \x7b"
      (line "/// Returns a message payload to its pool." :: recycleOneof c (m.members index)) ++
    [blank]

/-! ## Functions -/

/-- The expression that tests whether a plain field is left out of the output. -/
def emptinessTest (f : Field) : String :=
  match f.cardinality, f.kind with
  | .singular, .bool => s!"!self.{f.member}"
  | .singular, .integer _ => s!"self.{f.member} == 0"
  | .singular, .float32 | .singular, .float64 => s!"self.{f.member} == 0.0"
  | .singular, .string => s!"self.{f.member}.is_empty()"
  | .singular, .enumeration _ => s!"self.{f.member} as i32 == 0"
  | _, _ => s!"self.{f.member}.is_none()"

/-- The function that tests whether a plain field is left out of the output. -/
def emptinessSteps (f : Field) : List LayoutStep :=
  [blank] ++
    (if f.cardinality = .singular ∧ (f.kind = .float32 ∨ f.kind = .float64) then
      [line "#[allow(clippy::float_cmp)]"]
    else []) ++
    [line "#[must_use]"] ++
    block s!"pub fn {f.emptiness}(&self) -> bool \x7b" [line (emptinessTest f)]

/-- The functions of a message type. -/
def functionSteps (c : SourceContext) (m : MessageType) : List LayoutStep :=
  block s!"impl {m.typeName} \x7b"
    ([line "/// Takes an idle instance from `pools`, or allocates one.", line "#[must_use]"] ++
      block s!"pub fn new_in(pools: &{c.pools}) -> ::std::boxed::Box<Self> \x7b"
        [line s!"pools.{m.poolMember}.acquire()"] ++
      m.plainFields.flatMap emptinessSteps) ++
    [blank]

end ProtoJson.MessageType
