import ProtoJson.Proofs.Number.Digits
import ProtoJson.Proofs.Schema.Resolution
import ProtoJson.Proofs.Source.Balance
import ProtoJson.Proofs.Source.EnumTables
import ProtoJson.Proofs.Source.Nesting

/-!
# Brackets of generated source

Every line of generated source closes what it opens, or opens the bracket of a block. So the source
of a schema is matched, whatever the names and literals in it, if no comment ends before its line.
-/

namespace ProtoJson

open LayoutStep

/-- The names that source is made of are parts of no bracket, literal or comment. -/
structure SourceContext.NamesBalanced (c : SourceContext) : Prop where
  runtime : IsBalanced c.runtime
  pools : IsBalanced c.pools
  enums : ∀ e ∈ c.schema.enums, IsBalanced e.typeName
  variants : ∀ e ∈ c.schema.enums, ∀ v ∈ e.values, IsBalanced v.variant
  messages : ∀ m ∈ c.schema.messages, IsBalanced m.typeName
  oneofs : ∀ m ∈ c.schema.messages, ∀ o ∈ m.oneofs, IsBalanced o.typeName

variable {c : SourceContext}

/-! ## Values -/

namespace SourceContext.NamesBalanced

variable (h : c.NamesBalanced)

include h

theorem valueType (kind : Kind) : IsBalanced (c.valueType kind) := by
  cases kind with
  | integer kind => cases kind <;> exact .fixed rfl
  | enumeration i =>
    rw [SourceContext.valueType]
    cases he : c.schema.enums[i]? with
    | none => exact .fixed rfl
    | some e => exact h.enums e (List.mem_of_getElem? he)
  | message i =>
    rw [SourceContext.valueType]
    cases hm : c.schema.messages[i]? with
    | none => exact .fixed rfl
    | some m => exact h.messages m (List.mem_of_getElem? hm)
  | _ => exact .fixed rfl

theorem keyType (key : KeyKind) : IsBalanced (c.keyType key) := by
  cases key <;> exact h.valueType _

theorem elementType (kind : Kind) : IsBalanced (c.elementType kind) := by
  unfold SourceContext.elementType
  split
  · exact .around rfl (h.valueType kind) rfl
  · exact h.valueType kind

theorem fieldType (f : Field) : IsBalanced (c.fieldType f) := by
  have helement := h.elementType f.kind
  unfold SourceContext.fieldType
  split
  · split
    · exact .around rfl helement rfl
    · exact helement
  · exact .around rfl helement rfl
  · exact .part (.part (.fixed rfl) (h.keyType _) rfl) helement rfl

theorem codec (kind : Kind) : IsBalanced (c.codec kind) :=
  .part (.part (.fixed rfl) (h.valueType kind) rfl) h.runtime rfl

theorem writeValue (kind : Kind) {p : Place} (hvalue : IsBalanced p.value)
    (hreference : IsBalanced p.reference) : IsBalanced (c.writeValue kind p) := by
  cases kind with
  | integer kind => cases kind <;> exact .around rfl hvalue rfl
  | string => exact .around rfl hreference rfl
  | bytes => exact .around rfl hreference rfl
  | enumeration i => exact .part (.part (.fixed rfl) h.runtime rfl) hreference rfl
  | message i => exact .part (.append (h.codec (.message i)) (.fixed rfl)) hreference rfl
  | _ => exact .around rfl hvalue rfl

theorem readValue (kind : Kind) : IsBalanced (c.readValue kind) := by
  cases kind with
  | integer kind => cases kind <;> exact .fixed rfl
  | enumeration i => exact .around rfl (h.valueType _) rfl
  | message i =>
    exact Turns.append (.part (.fixed rfl) (h.valueType _) rfl)
      (.append ((h.codec _).frame _) (.fixed rfl))
  | _ => exact .fixed rfl

theorem recycle (kind : Kind) {value : String} (hvalue : IsBalanced value) :
    IsBalanced (c.recycle kind value) :=
  .part (.append (h.codec kind) (.fixed rfl)) hvalue rfl

end SourceContext.NamesBalanced

/-- The heading of an item: a comment that names it. -/
theorem comments_name {name : String} (h : '\n' ∉ name.toList) : Comments s!"/// `{name}`" :=
  .append (.append (.fixed rfl) h) (by decide)

/-! ## Enums -/

theorem isIdentifierChar_of_isDigit {c : Char} (h : isDigit c = true) : IsIdentifierChar c :=
  .inl fun _ => (Bool.or_eq_true _ _).mpr (.inr h)

theorem isBalanced_decimalInt (n : Int) : IsBalanced (String.ofList (decimalInt n)) := by
  refine isBalanced_of_plain fun c hc => ?_
  rw [String.toList_ofList] at hc
  rcases mem_decimalInt hc with rfl | hdigit
  · decide
  · exact (isIdentifierChar_of_isDigit hdigit).isPlainChar

namespace EnumType

theorem isNested_variantSteps (isDefault : Bool) {v : EnumValue} (hv : IsBalanced v.variant) :
    IsNested (variantSteps isDefault v) := by
  have hline : IsNested [line s!"{v.variant} = {String.ofList (decimalInt v.number)},"] :=
    .line (.part (.append hv (.fixed rfl)) (isBalanced_decimalInt v.number) rfl) .nil
  cases isDefault with
  | false => exact hline
  | true => exact .line (.fixed rfl) hline

/-- The arms of a look-up stand for variants. What stands in front of them begins a line. -/
theorem isNested_lookupSteps {heading subject : String} {arms : List (String × String)}
    (hheading : Turns [] [.curly] heading) (hsubject : IsBalanced subject)
    (harms : ∀ a ∈ arms, Begins [] [] a.1 ∧ IsBalanced a.2) :
    IsNested (lookupSteps heading subject arms) := by
  refine .block hheading (.block (.part (.fixed rfl) hsubject rfl) (.append (.map ?_) ?_))
  · intro a ha
    obtain ⟨hpattern, hvariant⟩ := harms a ha
    exact (((hpattern.append (.fixed rfl)).append (hvariant.frame _)).append (.fixed rfl)).spans
  · exact .line (.fixed rfl) .nil

section

variable {e : EnumType} (hvariants : ∀ v ∈ e.variants, IsBalanced v.variant)

include hvariants

theorem isBalanced_default {default : EnumValue} (h : e.defaultVariant? = some default) :
    IsBalanced default.variant := by
  rcases Option.or_eq_some_iff.1 h with hzero | ⟨-, hhead⟩
  · exact hvariants default (List.mem_of_find?_eq_some hzero)
  · exact hvariants default (List.mem_of_head? hhead)

theorem numberArms_balanced :
    ∀ a ∈ e.numberTable.map fun (n, v) => (String.ofList (decimalInt n), v),
      Begins [] [] a.1 ∧ IsBalanced a.2 := by
  intro a ha
  rw [numberTable, List.map_map] at ha
  obtain ⟨v, hv, rfl⟩ := List.mem_map.1 ha
  exact ⟨(isBalanced_decimalInt v.number).begins, hvariants v hv⟩

theorem nameArms_balanced {default : EnumValue} (hdefault : IsBalanced default.variant) :
    ∀ a ∈ (e.nameTable default).map fun (n, v) => (quoted n, v),
      Begins [] [] a.1 ∧ IsBalanced a.2 := by
  intro a ha
  rw [nameTable, List.map_map] at ha
  obtain ⟨v, hv, rfl⟩ := List.mem_map.1 ha
  refine ⟨.quoted v.name, ?_⟩
  cases hfind : e.variants.find? (·.number == v.number) with
  | none => simpa [hfind] using hdefault
  | some w => simpa [hfind] using hvariants w (List.mem_of_find?_eq_some hfind)

theorem isNested_variantTable :
    IsNested (e.variantTable.map fun (v, n) => line s!"Self::{v} => {quoted n},") := by
  refine .map fun a ha => ?_
  obtain ⟨v, hv, rfl⟩ := List.mem_map.1 ha
  have hline : IsBalanced s!"Self::{v.variant} => {quoted v.name}," :=
    Turns.append (.partLiteral (.append (.fixed rfl) (hvariants v hv)) rfl v.name) (.fixed rfl)
  exact hline.spans

end

theorem isNested_source (h : c.NamesBalanced) {e : EnumType} (he : e ∈ c.schema.enums)
    (hname : '\n' ∉ e.fullName.toList) : IsNested (e.source c) := by
  have htype := h.enums e he
  have hvariants : ∀ v ∈ e.variants, IsBalanced v.variant := fun v hv =>
    h.variants e he v (List.mem_of_find?_eq_some (mem_firstOfEach_iff.1 hv).2)
  unfold source
  split
  · exact .nil
  next default hdefault =>
  have hheading : IsNested [line s!"/// `{e.fullName}`",
      line "#[derive(Debug, Clone, Copy, PartialEq, Eq, Hash, PartialOrd, Ord, Default)]",
      line "#[repr(i32)]"] :=
    .comment (comments_name hname) (.line (.fixed rfl) (.line (.fixed rfl) .nil))
  have hnames := nameArms_balanced hvariants (isBalanced_default hvariants hdefault)
  refine .append (.append (.append (.append hheading ?_) (.blank .nil)) ?_) (.blank .nil)
  · exact .block (.part (.fixed rfl) htype rfl)
      (.flatMap fun v hv => isNested_variantSteps _ (hvariants v hv))
  · refine .block (.part (.part (.fixed rfl) h.runtime rfl) htype rfl) ?_
    refine .append (.append (.append (.append (.append ?_ ?_) (.blank .nil)) ?_) (.blank .nil)) ?_
    · exact .line (Turns.append (.literal rfl e.fullName) (.fixed rfl)) (.blank .nil)
    · exact isNested_lookupSteps (.fixed rfl) (.fixed rfl) (numberArms_balanced hvariants)
    · exact isNested_lookupSteps (.fixed rfl) (.fixed rfl) hnames
    · exact .block (.fixed rfl) (.block (.fixed rfl) (isNested_variantTable hvariants))

end EnumType

/-! ## Messages -/

theorem Field.isBalanced_member (f : Field) : IsBalanced f.member :=
  isBalanced_memberIdentifier f.name

theorem Field.isBalanced_variant (f : Field) : IsBalanced f.variant :=
  isBalanced_variantIdentifier f.name

theorem Field.isBalanced_emptiness (f : Field) : IsBalanced f.emptiness := by
  have hname : IsBalanced (snakeCase f.name) := isBalanced_of_plain fun _ hc =>
    IsIdentifierChar.isPlainChar ((mem_snakeCase hc).symm.imp_right .inl)
  exact .append (.fixed rfl) hname

theorem Oneof.isBalanced_member (o : Oneof) : IsBalanced o.member :=
  isBalanced_memberIdentifier o.name

namespace MessageType

variable (h : c.NamesBalanced) {m : MessageType} (hm : m ∈ c.schema.messages) (f : Field)

theorem isBalanced_poolMember (m : MessageType) : IsBalanced m.poolMember :=
  isBalanced_memberIdentifier m.typeName

section

include h hm

theorem isNested_typeSteps (hname : '\n' ∉ m.fullName.toList) : IsNested (m.typeSteps c) := by
  have htype := h.messages m hm
  unfold typeSteps
  refine .append (.append (.comment (comments_name hname) (.line (.fixed rfl) .nil)) ?_)
    (.blank .nil)
  split
  · exact .line (.around rfl htype rfl) .nil
  · refine .block (.part (.fixed rfl) htype rfl) (.map ?_)
    rintro ⟨name, type⟩ ha
    have hparts : IsBalanced name ∧ IsBalanced type := by
      rcases List.mem_append.1 ha with ha | ha
      · obtain ⟨f, -, heq⟩ := List.mem_map.1 ha
        rw [← (Prod.mk.inj heq).1, ← (Prod.mk.inj heq).2]
        exact ⟨f.isBalanced_member, h.fieldType f⟩
      · obtain ⟨o, ho, heq⟩ := List.mem_map.1 ha
        rw [← (Prod.mk.inj heq).1, ← (Prod.mk.inj heq).2]
        exact ⟨o.isBalanced_member, .around rfl (h.oneofs m hm o ho) rfl⟩
    exact IsBalanced.spans (.part (.part (.fixed rfl) hparts.1 rfl) hparts.2 rfl)

end

section

include h

/-! ### Oneofs -/

theorem isNested_recycleArms (fs : List Field) : IsNested (fs.map (recycleArm c)) := by
  refine .map fun f _ => ?_
  have harm : IsBalanced s!"Self::{f.variant}(v) => " := .around rfl f.isBalanced_variant rfl
  exact (((harm.append (h.recycle f.kind (.fixed rfl))).append (.fixed rfl))).spans

theorem isNested_recycleOneof (members : List Field) : IsNested (recycleOneof c members) := by
  unfold recycleOneof
  split
  · exact .line (.around rfl h.pools rfl) .nil
  next f fs _ =>
  refine .block (.part (.fixed rfl) h.pools rfl) ?_
  split
  · exact .block (.part (.fixed rfl) f.isBalanced_variant rfl)
      (.line (.append (h.recycle f.kind (.fixed rfl)) (.fixed rfl)) .nil)
  · refine .block (.fixed rfl) (.append (isNested_recycleArms h (f :: fs)) ?_)
    split
    · exact .line (.fixed rfl) .nil
    · exact .nil

theorem isNested_oneofSteps {o : Oneof} (ho : IsBalanced o.typeName) (index : Nat)
    (hname : '\n' ∉ m.fullName.toList) (honeof : '\n' ∉ o.name.toList) :
    IsNested (m.oneofSteps c o index) := by
  have hcomment : Comments s!"/// `{m.fullName}.{o.name}`" :=
    .append (.append (.append (.append (.fixed rfl) hname) (by decide)) honeof) (by decide)
  unfold oneofSteps
  refine .append (.append (.append (.append ?_ ?_) (.blank .nil)) ?_) (.blank .nil)
  · exact .comment hcomment (.line (.fixed rfl) .nil)
  · refine .block (.part (.fixed rfl) ho rfl) (.map fun a ha => ?_)
    obtain ⟨f, -, rfl⟩ := List.mem_map.1 ha
    exact IsBalanced.spans (.part (.append f.isBalanced_variant (.fixed rfl))
      (h.elementType f.kind) rfl)
  · exact .block (.part (.fixed rfl) ho rfl)
      (.comment (.fixed rfl) (isNested_recycleOneof h _))

/-! ### Functions -/

omit h in
theorem isBalanced_emptinessTest : IsBalanced (emptinessTest f) := by
  have hmember := f.isBalanced_member
  unfold emptinessTest
  split
  · exact .append (.fixed rfl) hmember
  all_goals exact .around rfl hmember rfl

omit h in
theorem isNested_emptinessSteps : IsNested (emptinessSteps f) := by
  unfold emptinessSteps
  refine .append (.append (.append (.blank .nil) ?_) (.line (.fixed rfl) .nil)) ?_
  · split
    · exact .line (.fixed rfl) .nil
    · exact .nil
  · exact .block (.part (.fixed rfl) f.isBalanced_emptiness rfl)
      (.line (isBalanced_emptinessTest f) .nil)

theorem isNested_functionSteps (hm : m ∈ c.schema.messages) : IsNested (m.functionSteps c) := by
  have hcomment : Comments "/// Takes an idle instance from `pools`, or allocates one." :=
    .fixed rfl
  refine .append (.block (.part (.fixed rfl) (h.messages m hm) rfl) ?_) (.blank .nil)
  refine .append (.append (.comment hcomment (.line (.fixed rfl) .nil)) ?_)
    (.flatMap fun f _ => isNested_emptinessSteps f)
  exact .block (.part (.fixed rfl) h.pools rfl)
    (.line (.around rfl (isBalanced_poolMember m) rfl) .nil)

/-! ### Writing -/

omit h in
theorem isBalanced_writeKey (opening : String) :
    IsBalanced s!"buf.write({keyLiteral f.jsonName opening});" :=
  .around rfl (isBalanced_byteLiteral _) rfl

omit h in
/-- The bracket is written from a character literal. -/
theorem isNested_writeClose (bracket : Char) (h : bracket ≠ '\\') :
    IsNested (writeClose (String.ofList [bracket])) :=
  .line (.fixed rfl) (.line (Turns.character rfl h rfl) .nil)

theorem isBalanced_writeItem (kind : Kind) : IsBalanced (c.writeValue kind (.borrowed "v")) :=
  h.writeValue kind (.append (.fixed rfl) (.fixed rfl)) (.fixed rfl)

theorem isNested_writeField : IsNested (writeField c f) := by
  have hmember := f.isBalanced_member
  have hcomma : IsBalanced "buf.write_byte(b',');" := .fixed rfl
  have hitem := isBalanced_writeItem h f.kind
  unfold writeField
  dsimp only
  -- One value, a list or a map: the last two take back their last comma for a bracket.
  split
  · -- Bytes and messages may be missing; any other value is left out where it is empty.
    split
    · exact .block (.part (.fixed rfl) hmember rfl)
        (.line (isBalanced_writeKey f "") (.line hitem (.line hcomma .nil)))
    · have hself : IsBalanced s!"self.{f.member}" := .append (.fixed rfl) hmember
      have hvalue := h.writeValue f.kind (p := .member s!"self.{f.member}") hself
        (.append (.fixed rfl) hself)
      exact .block (.part (.fixed rfl) f.isBalanced_emptiness rfl)
        (.line (isBalanced_writeKey f "") (.line hvalue (.line hcomma .nil)))
  · have hclose := isNested_writeClose ']' (by decide)
    have hloop : IsNested (block "for v in list \x7b" [_, writeComma]) :=
      .block (.fixed rfl) (.line hitem (.line hcomma .nil))
    exact .block (.part (.fixed rfl) hmember rfl)
      (.line (isBalanced_writeKey f "[") ((hloop.append hclose).append (.line hcomma .nil)))
  · have hclose := isNested_writeClose '\x7d' (by decide)
    have hloop : IsNested (block "for (k, v) in map \x7b"
        [line "buf.write_map_key(k);", _, writeComma]) :=
      .block (.fixed rfl) (.line (.fixed rfl) (.line hitem (.line hcomma .nil)))
    exact .block (.part (.fixed rfl) hmember rfl)
      (.line (isBalanced_writeKey f "\x7b") ((hloop.append hclose).append (.line hcomma .nil)))

theorem isNested_writeOneof {o : Oneof} (ho : IsBalanced o.typeName) (index : Nat) :
    IsNested (m.writeOneof c o index) := by
  refine .block (.part (.fixed rfl) o.isBalanced_member rfl)
    (.append (.block (.fixed rfl) (.flatMap fun f _ => ?_)) (.line (.fixed rfl) .nil))
  refine .block (.part (.append ho (.fixed rfl)) f.isBalanced_variant rfl) ?_
  exact .line (isBalanced_writeKey f "") (.line (isBalanced_writeItem h f.kind) .nil)

theorem isNested_writeSteps (hm : m ∈ c.schema.messages) : IsNested (m.writeSteps c) := by
  have hclose := isNested_writeClose '\x7d' (by decide)
  refine .block (.part (.fixed rfl) h.runtime rfl)
    (.line (.fixed rfl) (.append (.append (.flatMap fun f _ => isNested_writeField h f)
      (.flatMap ?_)) hclose))
  rintro ⟨o, index⟩ ho
  have hmem := List.mem_of_getElem? (List.mem_zipIdx_iff_getElem?.1 ho)
  exact isNested_writeOneof h (h.oneofs m hm o hmem) index

/-! ### Giving back -/

theorem isNested_recycleOptional {name taken : String} (hname : IsBalanced name)
    (htaken : IsBalanced taken) : IsNested (recycleOptional c f name taken) :=
  .block (.part (.part (.fixed rfl) hname rfl) htaken rfl)
    (.line (.append (h.recycle f.kind hname) (.fixed rfl)) .nil)

theorem isNested_recycleEach {taken : String} (htaken : IsBalanced taken) :
    IsNested (recycleEach c f taken) :=
  .block (.part (.fixed rfl) htaken rfl)
    (.line (.append (h.recycle f.kind (.fixed rfl)) (.fixed rfl)) .nil)

theorem isNested_recycleField : IsNested (recycleField c f) := by
  have hmember := f.isBalanced_member
  have htaken : IsBalanced s!"self.{f.member}.take()" := .around rfl hmember rfl
  have hreset {cs : List Char} (hcs : openAfter? [] cs = some []) :
      IsNested [line (s!"self.{f.member}" ++ String.ofList cs)] :=
    .line (.around rfl hmember hcs) .nil
  unfold recycleField
  split
  · exact hreset rfl
  · exact hreset rfl
  · exact hreset rfl
  · exact hreset rfl
  · exact hreset rfl
  · exact .line (.part (.part (.fixed rfl) hmember rfl) (h.valueType _) rfl) .nil
  · exact isNested_recycleOptional h f (.fixed rfl) htaken
  · exact isNested_recycleEach h f (.append htaken (.fixed rfl))
  · exact isNested_recycleEach h f (.append htaken (.fixed rfl))
  · exact hreset rfl

theorem isNested_recycleSteps (m : MessageType) : IsNested (m.recycleSteps c) := by
  have hreceiver : IsBalanced (if m.fields.isEmpty then "self" else "mut self") := by
    split <;> exact .fixed rfl
  refine .block (.part (.part (.fixed rfl) hreceiver rfl) h.pools rfl)
    (.append (.append (.flatMap fun f _ => isNested_recycleField h f) (.flatMap fun o _ => ?_))
      (.line (.around rfl (isBalanced_poolMember m) rfl) .nil))
  exact .block (.part (.fixed rfl) o.isBalanced_member rfl) (.line (.fixed rfl) .nil)

/-! ### Reading -/

omit h in
theorem isBalanced_announce {d : Char} (hd : d ≠ '\\') :
    IsBalanced s!"p.assert_symbol(b'{String.ofList [d]}');" := Turns.character rfl hd rfl

omit h in
/-- The brackets of a sequence are in character literals. -/
theorem isNested_readSequence (opening closing : Char) (hopening : opening ≠ '\\')
    (hclosing : closing ≠ '\\') {item : List LayoutStep} (hitem : IsNested item) :
    IsNested (readSequence (String.ofList [opening]) (String.ofList [closing]) item) := by
  have hloop : Turns [] [.curly] s!"while !p.is_symbol(b'{String.ofList [closing]}') \x7b" :=
    .character rfl hclosing rfl
  refine .append (.append (.line (Turns.character rfl hopening rfl) .nil) ?_) ?_
  · exact .block hloop (.append hitem (.line (isBalanced_announce (d := ',') (by decide)) .nil))
  · exact .line (isBalanced_announce (d := ',') (by decide))
      (.line (Turns.character rfl hclosing rfl) .nil)

theorem isNested_readList : IsNested (readList c f) := by
  have hmember := f.isBalanced_member
  have hitem : IsNested [line s!"list.push({c.readValue f.kind});"] :=
    .line (.around rfl (h.readValue f.kind) rfl) .nil
  have hsequence := isNested_readSequence '[' ']' (by decide) (by decide) hitem
  refine .append (.append (.line (.fixed rfl) .nil) hsequence) ?_
  split
  · exact isNested_recycleEach h f (.append (.around rfl hmember rfl) (.fixed rfl))
  · exact .line (.around rfl hmember rfl) .nil

theorem isNested_readMap (key : KeyKind) : IsNested (readMap c f key) := by
  have hmember := f.isBalanced_member
  have hinsertion : IsNested (if f.kind.isMessage then
      recycleOptional c f "old" "map.insert(k, v)" else [line "map.insert(k, v);"]) := by
    split
    · exact isNested_recycleOptional h f (.fixed rfl) (.fixed rfl)
    · exact .line (.fixed rfl) .nil
  have hitem : IsNested ([line s!"let k = p.map_key::<{c.keyType key}>()?;", announce ":",
      line s!"let v = {c.readValue f.kind};"]) :=
    .line (.around rfl (h.keyType key) rfl)
      (.line (isBalanced_announce (d := ':') (by decide))
        (.line (.around rfl (h.readValue f.kind) rfl) .nil))
  refine .append (.append (.line (.fixed rfl) .nil) (isNested_readSequence '\x7b' '\x7d' (by decide)
    (by decide) (hitem.append hinsertion))) ?_
  split
  · exact isNested_recycleEach h f (.append (.around rfl hmember rfl) (.fixed rfl))
  · exact .line (.around rfl hmember rfl) .nil

omit h in
/-- The text by which a field is known begins the line. -/
theorem isNested_arm (f : Field) {body : List LayoutStep} (hbody : IsNested body) :
    IsNested (block s!"{arm f} => \x7b" body) :=
  .block_of_begins (.append (.quoted f.jsonName) (.fixed rfl)) hbody

theorem isNested_readMember {o : Oneof} (ho : IsBalanced o.typeName) :
    IsNested (readMember c o f) := by
  refine isNested_arm f (.line ?_ (.block (.part (.fixed rfl) o.isBalanced_member rfl)
    (.line (.fixed rfl) .nil)))
  exact .part (.part (.part (.fixed rfl) ho rfl) f.isBalanced_variant rfl) (h.readValue f.kind) rfl

omit h in
/-- An arm of one line, which sets the member to what is read. -/
theorem begins_assignment {cs ds : List Char} {between : List Bracket} {value : String}
    (hfront : openAfter? [] cs = some between) (hvalue : IsBalanced value)
    (hback : openAfter? between ds = some []) :
    Begins [] [] (arm f ++ " => self." ++ f.member ++ String.ofList cs ++ value
      ++ String.ofList ds) := by
  have hmember : Begins [] [] (arm f ++ " => self." ++ f.member) :=
    .append (.append (.quoted f.jsonName) (.fixed rfl)) f.isBalanced_member
  exact .append (.append (.append hmember (.fixed hfront)) (hvalue.frame _)) (.fixed hback)

theorem isNested_readField : IsNested (readField c f) := by
  have hmember := f.isBalanced_member
  have hvalue := h.readValue f.kind
  unfold readField
  split
  · exact isNested_arm f (.line (.around rfl hvalue rfl)
      (isNested_recycleOptional h f (.fixed rfl) (.around rfl hmember rfl)))
  · exact .line_of_begins (begins_assignment f rfl hvalue rfl) .nil
  · exact .line_of_begins (begins_assignment f rfl hvalue rfl) .nil
  · exact isNested_arm f (isNested_readList h f)
  · exact isNested_arm f (isNested_readMap h f _)

theorem isNested_readArm (hm : m ∈ c.schema.messages) : IsNested (m.readArm c f) := by
  unfold readArm
  split
  · exact isNested_readField h f
  next index _ =>
  cases ho : m.oneofs[index]? with
  | none => exact .nil
  | some o => exact isNested_readMember h f (h.oneofs m hm o (List.mem_of_getElem? ho))

theorem isNested_readItem (hm : m ∈ c.schema.messages) : IsNested (m.readItem c) := by
  have hcolon : IsNested [announce ":"] := .line (isBalanced_announce (d := ':') (by decide)) .nil
  unfold readItem
  split
  · exact .line (.fixed rfl) (hcolon.append (.line (.fixed rfl) .nil))
  · exact .append (.line (.fixed rfl) hcolon) (.block (.fixed rfl)
      (.append (.flatMap fun f _ => isNested_readArm h f hm) (.line (.fixed rfl) .nil)))

/-- The parameters of the reader stand in a bracket of their own, which is closed in front of the
body. -/
theorem nests_readSignature {pools : String} (hpools : IsBalanced pools) :
    Nests [] [.curly]
      [enter "fn unmarshal_json(", line "&mut self,", line s!"p: &mut {c.runtime}::Parser<'_>,",
        line s!"{pools}: &{c.pools},",
        turn s!") -> ::core::result::Result<(), {c.runtime}::Error> \x7b"] := by
  have hopening : Spans [] [.round] "fn unmarshal_json(" := Turns.spans (.fixed rfl)
  have hself : Spans [.round] [.round] "&mut self," := Turns.spans (.fixed rfl)
  have hparser : Spans [.round] [.round] s!"p: &mut {c.runtime}::Parser<'_>," :=
    Turns.spans (.part (.fixed rfl) h.runtime rfl)
  have hpoolSet : Spans [.round] [.round] s!"{pools}: &{c.pools}," :=
    Turns.spans (.part (.append (hpools.frame _) (.fixed rfl)) h.pools rfl)
  have hresult : Spans [.round] [.curly]
      s!") -> ::core::result::Result<(), {c.runtime}::Error> \x7b" :=
    Turns.spans (.part (.fixed rfl) h.runtime rfl)
  exact .cons hopening (.cons hself (.cons hparser (.cons hpoolSet (.cons hresult .nil))))

theorem isNested_readSteps (hm : m ∈ c.schema.messages) : IsNested (m.readSteps c) := by
  have hpools : IsBalanced (if m.hasMessages ∨ !m.oneofs.isEmpty then "pools" else "_pools") := by
    split <;> exact .fixed rfl
  have hsequence := isNested_readSequence '\x7b' '\x7d' (by decide) (by decide)
    (isNested_readItem h hm)
  refine Nests.append (.append (nests_readSignature h hpools) (hsequence.frame _)) ?_
  exact .cons (Turns.spans (.fixed rfl)) (.cons (Turns.spans (.fixed rfl)) .nil)

/-! ### All of it -/

theorem isNested_codecSteps (hm : m ∈ c.schema.messages) : IsNested (m.codecSteps c) := by
  have htype := h.messages m hm
  refine .append (.block (.part (.part (.fixed rfl) h.runtime rfl) htype rfl) ?_) (.blank .nil)
  refine .append (.append (.append (.append (.append ?_ (isNested_writeSteps h hm)) (.blank .nil))
    (isNested_readSteps h hm)) (.blank .nil)) (isNested_recycleSteps h m)
  exact .line (.around rfl h.pools rfl) (.blank .nil)

theorem isNested_source (hm : m ∈ c.schema.messages) (hname : '\n' ∉ m.fullName.toList)
    (honeofs : ∀ o ∈ m.oneofs, '\n' ∉ o.name.toList) : IsNested (m.source c) := by
  refine .append (.append (.append (isNested_typeSteps h hm hname) (.flatMap ?_))
    (isNested_functionSteps h hm)) (isNested_codecSteps h hm)
  rintro ⟨o, index⟩ ho
  have hmem := List.mem_of_getElem? (List.mem_zipIdx_iff_getElem?.1 ho)
  exact isNested_oneofSteps h (h.oneofs m hm o hmem) index hname (honeofs o hmem)

end

end MessageType

/-! ## Schemas -/

/-- No name in a comment ends its line. -/
structure Schema.NamesInLine (s : Schema) : Prop where
  sources : ∀ name ∈ s.sources, '\n' ∉ name.toList
  enums : ∀ e ∈ s.enums, '\n' ∉ e.fullName.toList
  messages : ∀ m ∈ s.messages, '\n' ∉ m.fullName.toList
  oneofs : ∀ m ∈ s.messages, ∀ o ∈ m.oneofs, '\n' ∉ o.name.toList

/-- A path of identifiers, with colons between them. -/
def IsPath (s : String) : Prop := ∀ c ∈ s.toList, IsIdentifierChar c ∨ c = ':'

instance (s : String) : Decidable (IsPath s) :=
  List.decidableBAll (fun c : Char => IsIdentifierChar c ∨ c = ':') s.toList

/-- Options that choose paths. -/
structure SourceOptions.ArePaths (options : SourceOptions) : Prop where
  runtimePath : IsPath options.runtimePath
  poolsName : IsPath options.poolsName

theorem IsPath.isBalanced {s : String} (h : IsPath s) : IsBalanced s := by
  refine isBalanced_of_plain fun c hc => ?_
  rcases h c hc with hword | rfl
  · exact hword.isPlainChar
  · decide

theorem isBalanced_identifier {word : String} (h : ∀ c ∈ word.toList, IsIdentifierChar c) :
    IsBalanced (identifier word) :=
  isBalanced_of_plain fun _ hc => (mem_identifier h hc).isPlainChar

theorem mem_join_upperCamelCase {path : List String} {c : Char}
    (h : c ∈ (String.join (path.map upperCamelCase)).toList) : IsIdentifierChar c := by
  rw [String.toList_join, List.flatMap_map] at h
  obtain ⟨name, -, h⟩ := List.mem_flatMap.1 h
  exact .inl (mem_upperCamelCase h)

theorem isBalanced_typeIdentifier (path : List String) : IsBalanced (typeIdentifier path) :=
  isBalanced_identifier fun _ hc => mem_join_upperCamelCase hc

theorem isBalanced_oneofIdentifier (path : List String) (name : String) :
    IsBalanced (oneofIdentifier (typeIdentifier path) name) := by
  refine isBalanced_identifier fun c hc => ?_
  rw [String.toList_append, List.mem_append] at hc
  rcases hc with hc | hc
  · exact mem_identifier (fun _ hd => mem_join_upperCamelCase hd) hc
  · exact .inl (mem_upperCamelCase hc)

namespace Schema

/-- The names of a schema that is made from declarations are words. -/
theorem namesBalanced_ofFiles {files : List FileDecl} {schema : Schema}
    (h : Schema.ofFiles files = .ok schema) {options : SourceOptions}
    (hoptions : options.ArePaths) : SourceContext.NamesBalanced ⟨schema, options⟩ := by
  have hmade := madeFrom_of_ofFiles h
  constructor
  · exact hoptions.runtimePath.isBalanced
  · exact hoptions.poolsName.isBalanced
  · intro e he
    obtain ⟨p, -, hp⟩ := of_mem_mapM_ok hmade.enums he
    obtain ⟨-, -, rfl⟩ := Placed.of_enumType hp
    exact isBalanced_typeIdentifier p.scope.path
  · intro e he v hv
    obtain ⟨p, -, hp⟩ := of_mem_mapM_ok hmade.enums he
    obtain ⟨-, -, rfl⟩ := Placed.of_enumType hp
    obtain ⟨w, -, rfl⟩ := List.mem_map.1 hv
    dsimp only
    exact isBalanced_variantIdentifier w.name
  · intro m hm
    obtain ⟨p, -, hp⟩ := of_mem_mapM_ok hmade.messages hm
    obtain ⟨-, -, -, -, rfl⟩ := TypeTable.of_message hp
    exact isBalanced_typeIdentifier p.scope.path
  · intro m hm
    obtain ⟨p, -, hp⟩ := of_mem_mapM_ok hmade.messages hm
    obtain ⟨-, -, -, -, rfl⟩ := TypeTable.of_message hp
    intro o ho
    obtain ⟨w, -, rfl⟩ := List.mem_map.1 ho
    dsimp only
    exact isBalanced_oneofIdentifier p.scope.path w.1.name

theorem isNested_poolSteps (h : c.NamesBalanced) : IsNested (poolSteps c) := by
  refine .append (.append (.comment (.fixed rfl) (.line (.fixed rfl) .nil)) ?_) (.blank .nil)
  split
  · exact .line (.around rfl h.pools rfl) .nil
  · refine .block (.part (.fixed rfl) h.pools rfl) (.map fun m hm => IsBalanced.spans ?_)
    exact .part (.part (.part (.fixed rfl) (MessageType.isBalanced_poolMember m) rfl) h.runtime rfl)
      (h.messages m hm) rfl

theorem isNested_sourceSteps {s : Schema} {options : SourceOptions}
    (h : SourceContext.NamesBalanced ⟨s, options⟩) (hnames : s.NamesInLine) :
    IsNested (s.sourceSteps options) := by
  refine .append (.append (.append (.append (.append ?_ ?_) (.blank .nil)) (isNested_poolSteps h))
    (.flatMap fun e he => ?_)) (.flatMap fun m hm => ?_)
  · exact .comment (.fixed rfl) .nil
  · refine .map fun name hname => ?_
    have hcomment : Comments s!"// source: {name}" :=
      .append (.fixed rfl) (hnames.sources name hname)
    exact hcomment.spans
  · exact EnumType.isNested_source h he (hnames.enums e he)
  · exact MessageType.isNested_source h hm (hnames.messages m hm) (hnames.oneofs m hm)

/-- What holds of the steps that lay out an item. -/
structure IsItem (steps : List LayoutStep) : Prop where
  /-- No step leaves level zero, and the last one leaves the level where the first found it. -/
  level : ∀ level, levelAfter? level steps = some level
  /-- So what follows is laid out as if the item were not there. -/
  lines_append : ∀ level rest, lines level (steps ++ rest) = lines level steps ++ lines level rest
  nested : IsNested steps

theorem isItem_of_isNested {steps : List LayoutStep}
    (hlevel : ∀ level, levelAfter? level steps = some level) (hnested : IsNested steps) :
    IsItem steps where
  level := hlevel
  lines_append level rest := lines_append (hlevel level) rest
  nested := hnested

/-- What it is for the source of a schema to nest. -/
structure SourceNests (s : Schema) (options : SourceOptions) : Prop where
  pools : IsItem (poolSteps ⟨s, options⟩)
  enums : ∀ e ∈ s.enums, IsItem (e.source ⟨s, options⟩)
  messages : ∀ m ∈ s.messages, IsItem (m.source ⟨s, options⟩)
  matched : IsMatched (s.source options)

/-- The source of every schema that is made from declarations nests. -/
theorem sourceNests_ofFiles {files : List FileDecl} {schema : Schema}
    (h : Schema.ofFiles files = .ok schema) (hnames : schema.NamesInLine) {options : SourceOptions}
    (hoptions : options.ArePaths) : schema.SourceNests options := by
  have hbalanced := namesBalanced_ofFiles h hoptions
  constructor
  · exact isItem_of_isNested (fun level => by simp [poolSteps]) (isNested_poolSteps hbalanced)
  · intro e he
    exact isItem_of_isNested (fun level => e.levelAfter?_source level _)
      (EnumType.isNested_source hbalanced he (hnames.enums e he))
  · intro m hm
    exact isItem_of_isNested (fun level => m.levelAfter?_source level _)
      (MessageType.isNested_source hbalanced hm (hnames.messages m hm) (hnames.oneofs m hm))
  · exact isMatched_text (isNested_sourceSteps hbalanced hnames)

/-- An enum, and a message with a list, a map and a oneof, whose members have the names of types and
of words of the language. -/
theorem sourceNests_ofFiles_all :
    ∃ (files : List FileDecl) (schema : Schema) (options : SourceOptions),
      Schema.ofFiles files = .ok schema ∧ schema.NamesInLine ∧ options.ArePaths ∧
      schema.messages.map (fun m => m.fields.map Field.member)
        = [["list", "map", "r#type", "self_", "of_e"]] ∧
      schema.SourceNests options := by
  have hfiles : Schema.ofFiles
      [{ name := "a \x7b.proto"
         package := some "p"
         enums := [{ name := "E", values := [{ name := "self", number := 0 }] }]
         messages := [
          { name := "M"
            messages := [
              { name := "Entry"
                isMapEntry := true
                fields := [
                  { name := "key", number := 1, type := some .string },
                  { name := "value", number := 2, type := some .bytes }] }]
            oneofs := [{ name := "o" }]
            fields := [
              { name := "list", label := some .repeated, type := some .message,
                typeName := some ".p.M" },
              { name := "map", label := some .repeated, type := some .message,
                typeName := some ".p.M.Entry" },
              { name := "type", type := some .string, oneofIndex := some 0,
                jsonName := some "\x7d" },
              { name := "self", type := some .message, typeName := some ".p.M",
                oneofIndex := some 0 },
              { name := "of_e", type := some .enumeration, typeName := some ".p.E" }] }] }]
      = .ok
        { sources := ["a \x7b.proto"]
          enums := [⟨"p.E", "E", [⟨"self", 0, "Self_"⟩]⟩]
          messages := [
            ⟨"p.M", "M", [⟨"list", "list", .message 0, .list, none⟩,
              ⟨"map", "map", .bytes, .map .string, none⟩,
              ⟨"type", "\x7d", .string, .singular, some 0⟩,
              ⟨"self", "self", .message 0, .singular, some 0⟩,
              ⟨"of_e", "ofE", .enumeration 0, .singular, none⟩], [⟨"o", "MO"⟩]⟩] } := rfl
  refine ⟨_, _, {}, hfiles, ?_, ⟨by decide, by decide⟩, by decide, ?_⟩
  · exact ⟨by decide, by decide, by decide, by decide⟩
  · exact sourceNests_ofFiles hfiles ⟨by decide, by decide, by decide, by decide⟩
      ⟨by decide, by decide⟩

end Schema

end ProtoJson
