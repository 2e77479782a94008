import ProtoJson.Message.Codec
import ProtoJson.Proofs.Message.Typing
import ProtoJson.Proofs.Reader.Fallback
import ProtoJson.Proofs.Text.Buffer

/-!
# The text of a message

A message is written as an object of RFC 8259 without blanks: the tree that is built here. The
writer puts a comma after every item and takes the last one back, so its output is compared with the
tree by way of listings, in which every item has its comma.
-/

namespace ProtoJson

open Grammar

/-! ## Listings -/

namespace Grammar

/-- The items with a comma after each. -/
def Items.listing : Items NumberLiteral StringLiteral → List UInt8
  | .nil => []
  | .cons before v after rest =>
    before.bytes ++ v.bytes ++ after.bytes ++ ascii ',' :: rest.listing

/-- The members with a comma after each. -/
def Members.listing : Members NumberLiteral StringLiteral → List UInt8
  | .nil => []
  | .cons before key afterKey beforeValue v after rest =>
    before.bytes ++ Quotation.bytes key ++ afterKey.bytes ++ ascii ':' ::
      (beforeValue.bytes ++ v.bytes ++ after.bytes ++ ascii ',' :: rest.listing)

/-- A comma moves from the front of the items to their end. -/
theorem Items.comma_listing (items : Items NumberLiteral StringLiteral) :
    ascii ',' :: items.listing = items.bytes false ++ [ascii ','] := by
  cases items with
  | nil => rfl
  | cons before v after rest =>
    have ih := Items.comma_listing rest
    rw [listing, ih, Items.bytes]
    simp [leadingComma]

theorem Members.comma_listing (members : Members NumberLiteral StringLiteral) :
    ascii ',' :: members.listing = members.bytes false ++ [ascii ','] := by
  cases members with
  | nil => rfl
  | cons before key afterKey beforeValue v after rest =>
    have ih := Members.comma_listing rest
    rw [listing, ih, Members.bytes]
    simp [leadingComma]

/-- Items are listed with a comma after the last, unless there are none. -/
theorem Items.listing_eq (items : Items NumberLiteral StringLiteral) :
    (items.listing = [] ∧ items.bytes true = []) ∨ items.listing = items.bytes true ++ [ascii ',']
    := by
  cases items with
  | nil => exact .inl ⟨rfl, rfl⟩
  | cons before v after rest =>
    refine .inr ?_
    rw [listing, rest.comma_listing, Items.bytes]
    simp [leadingComma]

theorem Members.listing_eq (members : Members NumberLiteral StringLiteral) :
    (members.listing = [] ∧ members.bytes true = []) ∨
      members.listing = members.bytes true ++ [ascii ','] := by
  cases members with
  | nil => exact .inl ⟨rfl, rfl⟩
  | cons before key afterKey beforeValue v after rest =>
    refine .inr ?_
    rw [listing, rest.comma_listing, Members.bytes]
    simp [leadingComma]

end Grammar

/-- A listing between brackets is closed without its last comma. -/
theorem Buffer.toList_closeWith {b : Buffer} {x listing items : List UInt8} {c : UInt8}
    (bracket : Char) (h : b.toList = x ++ c :: listing) (hc : c ≠ ascii ',')
    (hitems : (listing = [] ∧ items = []) ∨ listing = items ++ [ascii ',']) :
    (b.closeWith bracket).toList = x ++ c :: (items ++ [ascii bracket]) := by
  rw [closeWith, toList_writeByte]
  rcases hitems with ⟨rfl, rfl⟩ | rfl
  · rw [toList_dropComma_open h hc]
    simp
  · have hcomma : b.toList = (x ++ c :: items) ++ [ascii ','] := by
      rw [h]
      simp
    rw [toList_dropComma_comma hcomma (by simp)]
    simp

/-! ## Trees -/

/-- The text of a key. -/
def MapKey.text : MapKey → String
  | string s => s
  | bool v => if v then "true" else "false"
  | integer v => String.ofList (decimalInt v)

/-- The name that a number of an enum is written as. -/
def EnumType.nameOf (e : EnumType) (number : Int) : String :=
  ((e.ofNumber? number).map (·.name)).getD ""

namespace Grammar

/-- An item without blanks in front of others. -/
abbrev Items.bare (v : Json) (rest : Items NumberLiteral StringLiteral) :
    Items NumberLiteral StringLiteral :=
  .cons .empty v .empty rest

/-- A member without blanks in front of others. -/
abbrev Members.bare (key : String) (v : Json) (rest : Members NumberLiteral StringLiteral) :
    Members NumberLiteral StringLiteral :=
  .cons .empty (.ofString key) .empty .empty v .empty rest

end Grammar

mutual

/-- The value that is written for a value of a kind. -/
def Datum.tree (schema : Schema) (kind : Kind) : Datum → Json
  | .bool v => .bool v
  | .integer v => .number (.ofInt v)
  | .float32 x => .number (.ofBinary x)
  | .float64 x => .number (.ofBinary x)
  | .string s => .string (.ofString s)
  | .bytes bs => .string (.ofBase64 bs)
  | .enumeration number =>
    match kind with
    | .enumeration i => .string (.ofString ((schema.enumType i).nameOf number))
    | _ => .number (.ofInt number)
  | .message m =>
    match kind with
    | .message i => .object .empty (Message.members schema i m)
    | _ => .null

/-- The items that are written for a list. -/
def elementItems (schema : Schema) (kind : Kind) : List Datum → Items NumberLiteral StringLiteral
  | [] => .nil
  | d :: ds => .bare (Datum.tree schema kind d) (elementItems schema kind ds)

/-- The members that are written for a map. -/
def entryMembers (schema : Schema) (kind : Kind) :
    List (MapKey × Datum) → Members NumberLiteral StringLiteral
  | [] => .nil
  | (key, d) :: es => .bare key.text (Datum.tree schema kind d) (entryMembers schema kind es)

/-- The value that is written for a field. -/
def Content.tree (schema : Schema) (kind : Kind) : Content → Json
  | .absent => .null
  | .single d => Datum.tree schema kind d
  | .list ds => .array .empty (elementItems schema kind ds)
  | .map es => .object .empty (entryMembers schema kind es)

/-- The members that are written for plain fields, in front of others. -/
def plainMembers (schema : Schema) (rest : Members NumberLiteral StringLiteral) :
    List Content → List Field → Members NumberLiteral StringLiteral
  | c :: cs, f :: fs =>
    if c.isEmpty then plainMembers schema rest cs fs
    else .bare f.jsonName (Content.tree schema f.kind c) (plainMembers schema rest cs fs)
  | _, _ => rest

/-- The members that are written for oneofs. `index` is the number of the first. -/
def choiceMembers (schema : Schema) (type : MessageType) :
    List Choice → Nat → Members NumberLiteral StringLiteral
  | [], _ => .nil
  | .unset :: cs, index => choiceMembers schema type cs (index + 1)
  | .member k d :: cs, index =>
    match (type.members index)[k]? with
    | none => choiceMembers schema type cs (index + 1)
    | some f =>
      .bare f.jsonName (Datum.tree schema f.kind d) (choiceMembers schema type cs (index + 1))

/-- The members that are written for a message. -/
def Message.members (schema : Schema) (index : Nat) : Message → Members NumberLiteral StringLiteral
  | .mk plain choices =>
    plainMembers schema (choiceMembers schema (schema.messageType index) choices 0) plain
      (schema.messageType index).plainFields

end

/-- The object that is written for a message. -/
def Message.tree (schema : Schema) (index : Nat) (m : Message) : Json :=
  .object .empty (m.members schema index)

/-! ## Finite numbers -/

mutual

/-- All numbers within a value are finite. -/
def Datum.Finite : Datum → Prop
  | .float32 x => x.isFinite = true
  | .float64 x => x.isFinite = true
  | .message m => Message.Finite m
  | .bool _ | .integer _ | .string _ | .bytes _ | .enumeration _ => True

/-- All numbers within a list are finite. -/
def ElementsFinite : List Datum → Prop
  | [] => True
  | d :: ds => Datum.Finite d ∧ ElementsFinite ds

/-- All numbers within a map are finite. -/
def EntriesFinite : List (MapKey × Datum) → Prop
  | [] => True
  | (_, d) :: es => Datum.Finite d ∧ EntriesFinite es

/-- All numbers within a field are finite. -/
def Content.Finite : Content → Prop
  | .absent => True
  | .single d => Datum.Finite d
  | .list ds => ElementsFinite ds
  | .map es => EntriesFinite es

/-- All numbers within plain fields are finite. -/
def PlainFinite : List Content → Prop
  | [] => True
  | c :: cs => Content.Finite c ∧ PlainFinite cs

/-- All numbers within oneofs are finite. -/
def ChoicesFinite : List Choice → Prop
  | [] => True
  | .unset :: cs => ChoicesFinite cs
  | .member _ d :: cs => Datum.Finite d ∧ ChoicesFinite cs

/-- All numbers within a message are finite. -/
def Message.Finite : Message → Prop
  | .mk plain choices => PlainFinite plain ∧ ChoicesFinite choices

end

/-! ## Keys -/

/-- No character of a number is escaped. -/
theorem escape_of_isNumberChar {cs : List Char}
    (h : ∀ c ∈ cs, NumberLiteral.isNumberChar c = true) : Escape.escape cs = cs := by
  have key : ∀ i < 0x80, NumberLiteral.isNumberChar (Char.ofNat i) = true →
      Escape.escapeChar (Char.ofNat i) = [Char.ofNat i] := by decide +kernel
  induction cs with
  | nil => rfl
  | cons c cs ih =>
    have hc := h c (by simp)
    have hchar := key c.toNat (NumberLiteral.toNat_numberChar hc) (by rwa [Char.ofNat_toNat])
    rw [Char.ofNat_toNat] at hchar
    have hcs : cs.flatMap Escape.escapeChar = cs := ih fun d hd => h d (by simp [hd])
    rw [Escape.escape, List.flatMap_cons, hchar, hcs, List.singleton_append]

/-- A key is written as the string of its text. -/
theorem MapKey.toList_write (key : MapKey) (b : Buffer) :
    (key.write b).toList
      = b.toList ++ Quotation.bytes (StringLiteral.ofString key.text) := by
  cases key with
  | string s => exact b.toList_writeQuoted s
  | bool v =>
    rw [write, Buffer.toList_writeByte, Buffer.toList_writeBool, Buffer.toList_writeByte]
    cases v
    · show _ = b.toList ++ Quotation.bytes (StringLiteral.ofString "false")
      simp
      decide
    · show _ = b.toList ++ Quotation.bytes (StringLiteral.ofString "true")
      simp
      decide
  | integer v =>
    have hraw : Quotation.raw (StringLiteral.ofString (String.ofList (decimalInt v)))
        = Numeral.bytes (NumberLiteral.ofInt v) := by
      show Utf8.encode (StringLiteral.ofString _).source = Utf8.encode (NumberLiteral.ofInt v).chars
      rw [StringLiteral.source_ofString, String.toList_ofList, NumberLiteral.chars_ofInt]
      rw [escape_of_isNumberChar]
      rw [← NumberLiteral.chars_ofInt]
      exact NumberLiteral.isNumberChar_chars _
    rw [write, Buffer.toList_writeByte, Buffer.toList_writeInteger, Buffer.toList_writeByte,
      text, Quotation.bytes, hraw]
    simp

theorem MapKey.toList_writeMember (key : MapKey) (b : Buffer) :
    (key.writeMember b).toList
      = b.toList ++ Quotation.bytes (StringLiteral.ofString key.text) ++ [ascii ':'] := by
  rw [writeMember, Buffer.toList_writeByte, toList_write]

theorem Field.toList_writeKey (f : Field) (b : Buffer) :
    (f.writeKey b).toList
      = b.toList ++ Quotation.bytes (StringLiteral.ofString f.jsonName) ++ [ascii ':'] := by
  rw [writeKey, Buffer.toList_write, Buffer.toList_writeByte, Buffer.toList_writeQuoted,
    Buffer.toList_empty, List.nil_append, List.append_assoc]

/-! ## The writer -/

variable {schema : Schema}

mutual

/-- A value is written as its tree. -/
theorem Datum.toList_write (kind : Kind) (d : Datum) (b : Buffer) (hd : d.OfKind schema kind)
    (hf : d.Finite) : (d.write schema kind b).toList = b.toList ++ (d.tree schema kind).bytes := by
  cases d with
  | bool v => exact b.toList_writeBool v
  | integer v => exact b.toList_writeInteger v
  | float32 x => exact Buffer.toList_writeBinary BinaryFormat.isInterchange_single b hf
  | float64 x => exact Buffer.toList_writeBinary BinaryFormat.isInterchange_double b hf
  | string s => exact b.toList_writeQuoted s
  | bytes bs => exact b.toList_writeBase64 bs
  | enumeration number =>
    obtain ⟨i, rfl, -⟩ := hd
    exact b.toList_writeQuoted _
  | message m =>
    obtain ⟨i, rfl, hm⟩ := hd
    exact Message.toList_write i m b hm hf

theorem toList_writeElements (kind : Kind) (ds : List Datum) (b : Buffer)
    (hds : ElementsOfKind schema kind ds) (hf : ElementsFinite ds) :
    (writeElements schema kind ds b).toList
      = b.toList ++ (elementItems schema kind ds).listing := by
  cases ds with
  | nil => simp [writeElements, elementItems, Items.listing]
  | cons d ds =>
    rw [writeElements, toList_writeElements kind ds _ hds.2 hf.2, Buffer.toList_writeByte,
      Datum.toList_write kind d b hds.1 hf.1]
    simp [elementItems, Items.listing]

theorem toList_writeEntries (keyKind : KeyKind) (kind : Kind) (es : List (MapKey × Datum))
    (b : Buffer) (hes : EntriesOfKind schema keyKind kind es) (hf : EntriesFinite es) :
    (writeEntries schema kind es b).toList
      = b.toList ++ (entryMembers schema kind es).listing := by
  cases es with
  | nil => simp [writeEntries, entryMembers, Members.listing]
  | cons e es =>
    obtain ⟨key, d⟩ := e
    rw [writeEntries, toList_writeEntries keyKind kind es _ hes.2.2 hf.2, Buffer.toList_writeByte,
      Datum.toList_write kind d _ hes.2.1 hf.1, MapKey.toList_writeMember]
    simp [entryMembers, Members.listing]

/-- A field that is not absent is written as its tree. -/
theorem Content.toList_write (f : Field) (c : Content) (b : Buffer) (hc : c.OfField schema f)
    (hf : c.Finite) (habsent : c.isEmpty = false) :
    (c.write schema f.kind b).toList = b.toList ++ (c.tree schema f.kind).bytes := by
  cases c with
  | absent => cases habsent
  | single d => exact Datum.toList_write f.kind d b hc.2 hf
  | list ds =>
    have hlist : (writeElements schema f.kind ds (b.writeByte (ascii '['))).toList
        = b.toList ++ ascii '[' :: (elementItems schema f.kind ds).listing := by
      rw [toList_writeElements f.kind ds _ hc.2 hf, Buffer.toList_writeByte]
      simp
    rw [Content.write, Buffer.toList_closeWith ']' hlist (by decide) (Items.listing_eq _)]
    simp [Content.tree, Tree.bytes]
  | map es =>
    obtain ⟨k, -, hes, -⟩ := hc
    have hmap : (writeEntries schema f.kind es (b.writeByte (ascii '{'))).toList
        = b.toList ++ ascii '{' :: (entryMembers schema f.kind es).listing := by
      rw [toList_writeEntries k f.kind es _ hes hf, Buffer.toList_writeByte]
      simp
    rw [Content.write, Buffer.toList_closeWith '}' hmap (by decide) (Members.listing_eq _)]
    simp [Content.tree, Tree.bytes]

/-- The plain fields are written in front of whatever members follow them. -/
theorem toList_writePlain (rest : Members NumberLiteral StringLiteral) (cs : List Content)
    (fs : List Field) (b : Buffer) (hcs : PlainOfFields schema cs fs) (hf : PlainFinite cs) :
    (writePlain schema cs fs b).toList ++ rest.listing
      = b.toList ++ (plainMembers schema rest cs fs).listing := by
  cases cs with
  | nil => simp [writePlain, plainMembers]
  | cons c cs =>
    cases fs with
    | nil => cases hcs
    | cons f fs =>
      rw [writePlain, plainMembers]
      cases hempty : c.isEmpty with
      | true =>
        rw [if_pos rfl, if_pos rfl]
        exact toList_writePlain rest cs fs b hcs.2 hf.2
      | false =>
        rw [if_neg (by decide), if_neg (by decide), toList_writePlain rest cs fs _ hcs.2 hf.2,
          Buffer.toList_writeByte, Content.toList_write f c _ hcs.1 hf.1 hempty,
          Field.toList_writeKey]
        simp [Members.listing]

theorem toList_writeChoices (type : MessageType) (cs : List Choice) (index : Nat) (b : Buffer)
    (hcs : ChoicesOfType schema type cs index) (hf : ChoicesFinite cs) :
    (writeChoices schema type cs index b).toList
      = b.toList ++ (choiceMembers schema type cs index).listing := by
  cases cs with
  | nil => simp [writeChoices, choiceMembers, Members.listing]
  | cons c cs =>
    cases c with
    | unset => exact toList_writeChoices type cs (index + 1) b hcs.2 hf
    | member k d =>
      obtain ⟨f, hfield, hd⟩ := hcs.1
      rw [writeChoices, choiceMembers, hfield]
      dsimp only
      rw [toList_writeChoices type cs (index + 1) _ hcs.2 hf.2, Buffer.toList_writeByte,
        Datum.toList_write f.kind d _ hd hf.1, Field.toList_writeKey]
      simp [Members.listing]

/-- A message is written as its object. -/
theorem Message.toList_write (index : Nat) (m : Message) (b : Buffer)
    (hm : m.OfType schema index) (hf : m.Finite) :
    (m.write schema index b).toList = b.toList ++ (m.tree schema index).bytes := by
  cases m with
  | mk plain choices =>
    have hplain := toList_writePlain
      (choiceMembers schema (schema.messageType index) choices 0) plain _
      (b.writeByte (ascii '{')) hm.1 hf.1
    have hobject : (writeChoices schema (schema.messageType index) choices 0
        (writePlain schema plain (schema.messageType index).plainFields
          (b.writeByte (ascii '{')))).toList
        = b.toList ++ ascii '{' :: ((Message.mk plain choices).members schema index).listing := by
      rw [toList_writeChoices _ choices 0 _ hm.2 hf.2, hplain, Buffer.toList_writeByte,
        Message.members]
      simp
    rw [Message.write]
    rw [Buffer.toList_closeWith '}' hobject (by decide) (Members.listing_eq _)]
    simp [Message.tree, Tree.bytes]

end

/-- A buffer of the pool, whatever was in it before, is filled with the object of the message. -/
theorem Schema.marshal_eq (index : Nat) {m : Message} (hm : m.OfType schema index) (hf : m.Finite)
    (buffers : Pool Buffer) :
    (schema.marshal index m buffers).1 = (m.tree schema index).bytes := by
  show (m.write schema index (buffers.acquire .empty).1.reset).toList = _
  rw [Message.toList_write index m _ hm hf, Buffer.toList_reset, List.nil_append]

end ProtoJson
