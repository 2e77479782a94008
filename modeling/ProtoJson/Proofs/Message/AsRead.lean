import ProtoJson.Proofs.Message.Normal
import ProtoJson.Proofs.Message.Writing

/-!
# Messages as they are read

What is written for a string can be read in two ways: with its escapes decoded it is the string
again, and otherwise the text that stands between the quotes. It is the same with bytes and base64.
`Message.asRead` is a message with every string and all bytes as they are read. It is a message of
the same type; in particular the keys of a map stay distinct, because no two strings are written
alike.
-/

namespace ProtoJson

open Grammar

/-! ## Strings and bytes -/

/-- The text that is written for a string, without quotes. -/
def writtenText (s : String) : String :=
  (Utf8.toString? (Buffer.empty.writeEscaped s).toList).getD ""

namespace ReadOptions

/-- What reading everything back asks for: escapes and base64 texts are decoded. -/
def decodeAll : ReadOptions := ⟨true, true⟩

/-- What is read where a string was written. -/
def stringOf (o : ReadOptions) (s : String) : String :=
  if o.decodeEscapes then s else writtenText s

/-- What is read where bytes were written. -/
def bytesOf (o : ReadOptions) (bs : List UInt8) : List UInt8 :=
  if o.decodeBase64 then bs else Base64.encode bs

end ReadOptions

theorem writtenText_eq (s : String) : writtenText s = String.ofList (Escape.escape s.toList) := by
  rw [writtenText, Buffer.toList_writeEscaped, Buffer.toList_empty, List.nil_append,
    Utf8.toString?, Utf8.decode?_encode, Option.map_some, Option.getD_some]

/-- A text that needs no escapes is written as it is. -/
theorem writtenText_eq_self {s : String} (h : Escape.escape s.toList = s.toList) :
    writtenText s = s := by
  rw [writtenText_eq, h, String.ofList_toList]

theorem writtenText_injective : Function.Injective writtenText := by
  intro s s' h
  rw [writtenText_eq, writtenText_eq, String.ofList_inj] at h
  exact String.toList_inj.1 (StringLiteral.escape_injective h)

theorem isEmpty_writtenText (s : String) : (writtenText s).isEmpty = s.isEmpty := by
  rw [Bool.eq_iff_iff, String.isEmpty_iff, String.isEmpty_iff]
  have hempty : writtenText "" = "" := writtenText_eq_self rfl
  constructor
  · intro h
    exact writtenText_injective (h.trans hempty.symm)
  · rintro rfl
    exact hempty

namespace ReadOptions

variable (o : ReadOptions)

theorem stringOf_eq_self {s : String} (h : Escape.escape s.toList = s.toList) :
    o.stringOf s = s := by
  unfold stringOf
  split
  · rfl
  · exact writtenText_eq_self h

theorem stringOf_injective : Function.Injective o.stringOf := by
  intro s s' h
  unfold stringOf at h
  split at h
  · exact h
  · exact writtenText_injective h

theorem isEmpty_stringOf (s : String) : (o.stringOf s).isEmpty = s.isEmpty := by
  unfold stringOf
  split
  · rfl
  · exact isEmpty_writtenText s

end ReadOptions

/-- A string that is written is read as the options say. -/
theorem Grammar.StringLiteral.text?_ofString (o : ReadOptions) (s : String) :
    Quotation.text? o.decodeEscapes (StringLiteral.ofString s) = some (o.stringOf s) := by
  show some ((StringLiteral.ofString s).text o.decodeEscapes) = _
  rw [StringLiteral.text, ReadOptions.stringOf, StringLiteral.meaning_ofString,
    StringLiteral.source_ofString, ← writtenText_eq]

/-- Bytes that are written are read as the options say. -/
theorem Grammar.StringLiteral.bytes?_ofBase64 (o : ReadOptions) (bs : List UInt8) :
    Quotation.bytes? o.decodeBase64 (StringLiteral.ofBase64 bs) = some (o.bytesOf bs) := by
  rw [Quotation.bytes?, ReadOptions.bytesOf, StringLiteral.raw_ofBase64, Base64.decode?_encode]
  split <;> rfl

/-! ## Map keys -/

/-- The key that is read where a key was written. -/
def MapKey.asRead (o : ReadOptions) : MapKey → MapKey
  | .string s => .string (o.stringOf s)
  | .bool v => .bool v
  | .integer v => .integer v

namespace MapKey

variable {o : ReadOptions} {kind : KeyKind} {key : MapKey}

theorem asRead_ofKind (h : key.OfKind kind) : (key.asRead o).OfKind kind := by
  cases key with
  | string s => exact h
  | bool v => exact h
  | integer v => exact h

/-- A key is read as itself, if escapes are decoded where it is a string. -/
theorem asRead_of_decodes (h : key.OfKind kind) (ho : kind = .string → o.decodeEscapes = true) :
    key.asRead o = key := by
  cases key with
  | string s => rw [asRead, ReadOptions.stringOf, if_pos (ho h)]
  | bool v => rfl
  | integer v => rfl

theorem asRead_injective : Function.Injective (asRead o) := by
  intro key key' h
  cases key with
  | string s =>
    cases key' with
    | string s' =>
      rw [asRead, asRead, string.injEq] at h
      rw [o.stringOf_injective h]
    | _ => cases h
  | bool v =>
    cases key' with
    | bool v' => exact h
    | _ => cases h
  | integer v =>
    cases key' with
    | integer v' => exact h
    | _ => cases h

/-- The text of a key is read as the key. -/
theorem parse?_text (h : key.OfKind kind) : parse? kind key.text = some key := by
  cases key with
  | string s =>
    rw [show kind = .string from h]
    rfl
  | bool v =>
    rw [show kind = .bool from h]
    cases v <;> rfl
  | integer v =>
    obtain ⟨k, rfl, hv⟩ := h
    rw [parse?, text, String.toList_ofList, ← NumberLiteral.chars_ofInt,
      NumberLiteral.parse?_integer, NumberLiteral.integer?_ofInt hv]
    rfl

/-- The text of a key that is no string needs no escapes. -/
theorem escape_text (h : key.OfKind kind) (hkind : kind ≠ .string) :
    Escape.escape key.text.toList = key.text.toList := by
  cases key with
  | string s => exact absurd h hkind
  | bool v => cases v <;> rfl
  | integer v =>
    rw [text, String.toList_ofList, ← NumberLiteral.chars_ofInt]
    exact escape_of_isNumberChar (NumberLiteral.isNumberChar_chars _)

/-- A key that is written is read as the options say. -/
theorem key?_ofString_text (h : key.OfKind kind) :
    Quotation.key? o.decodeEscapes kind (StringLiteral.ofString key.text)
      = some (key.asRead o) := by
  rw [Quotation.key?, StringLiteral.text?_ofString, Option.bind_some]
  cases key with
  | string s =>
    rw [show kind = .string from h]
    rfl
  | bool v =>
    rw [o.stringOf_eq_self (escape_text h (by rw [show kind = .bool from h]; decide)),
      parse?_text h]
    rfl
  | integer v =>
    obtain ⟨k, hk, -⟩ := id h
    rw [o.stringOf_eq_self (escape_text h (by rw [hk]; simp)), parse?_text h]
    rfl

end MapKey

/-! ## Messages -/

mutual

/-- A value as it is read. -/
def Datum.asRead (o : ReadOptions) : Datum → Datum
  | .string s => .string (o.stringOf s)
  | .bytes bs => .bytes (o.bytesOf bs)
  | .message m => .message (Message.asRead o m)
  | .bool v => .bool v
  | .integer v => .integer v
  | .float32 x => .float32 x
  | .float64 x => .float64 x
  | .enumeration number => .enumeration number

/-- The elements of a list as they are read. -/
def elementsAsRead (o : ReadOptions) : List Datum → List Datum
  | [] => []
  | d :: ds => Datum.asRead o d :: elementsAsRead o ds

/-- The entries of a map as they are read. -/
def entriesAsRead (o : ReadOptions) : List (MapKey × Datum) → List (MapKey × Datum)
  | [] => []
  | (key, d) :: es => (key.asRead o, Datum.asRead o d) :: entriesAsRead o es

/-- What a field holds, as it is read. -/
def Content.asRead (o : ReadOptions) : Content → Content
  | .absent => .absent
  | .single d => .single (Datum.asRead o d)
  | .list ds => .list (elementsAsRead o ds)
  | .map es => .map (entriesAsRead o es)

/-- Plain fields as they are read. -/
def plainAsRead (o : ReadOptions) : List Content → List Content
  | [] => []
  | c :: cs => Content.asRead o c :: plainAsRead o cs

/-- Oneofs as they are read. -/
def choicesAsRead (o : ReadOptions) : List Choice → List Choice
  | [] => []
  | .unset :: cs => .unset :: choicesAsRead o cs
  | .member k d :: cs => .member k (Datum.asRead o d) :: choicesAsRead o cs

/-- A message as it is read. -/
def Message.asRead (o : ReadOptions) : Message → Message
  | .mk plain choices => .mk (plainAsRead o plain) (choicesAsRead o choices)

end

variable {o : ReadOptions}

theorem elementsAsRead_eq_map (ds : List Datum) :
    elementsAsRead o ds = ds.map (Datum.asRead o) := by
  induction ds with
  | nil => rfl
  | cons d ds ih => rw [elementsAsRead, ih, List.map_cons]

theorem entriesAsRead_eq_map (es : List (MapKey × Datum)) :
    entriesAsRead o es = es.map (Prod.map (MapKey.asRead o) (Datum.asRead o)) := by
  induction es with
  | nil => rfl
  | cons e es ih =>
    rw [entriesAsRead, ih, List.map_cons]
    rfl

theorem entriesAsRead_keys (es : List (MapKey × Datum)) :
    (entriesAsRead o es).map Prod.fst = (es.map Prod.fst).map (MapKey.asRead o) := by
  rw [entriesAsRead_eq_map, List.map_map, List.map_map, Prod.map_fst']

theorem plainAsRead_eq_map (cs : List Content) : plainAsRead o cs = cs.map (Content.asRead o) := by
  induction cs with
  | nil => rfl
  | cons c cs ih => rw [plainAsRead, ih, List.map_cons]

theorem choicesAsRead_eq_map (cs : List Choice) :
    choicesAsRead o cs = cs.map (Choice.map (Datum.asRead o)) := by
  induction cs with
  | nil => rfl
  | cons c cs ih => cases c <;> (rw [choicesAsRead, ih, List.map_cons]; rfl)

/-- A field is left out as it was before. -/
@[simp] theorem Content.isEmpty_asRead (c : Content) : (c.asRead o).isEmpty = c.isEmpty := by
  cases c with
  | single d =>
    cases d with
    | string s => exact o.isEmpty_stringOf s
    | _ => rfl
  | _ => rfl

/-! ## Types -/

variable {schema : Schema}

mutual

theorem Datum.asRead_ofKind (kind : Kind) (d : Datum) (hd : d.OfKind schema kind) :
    (d.asRead o).OfKind schema kind := by
  cases d with
  | message m =>
    obtain ⟨i, rfl, hm⟩ := hd
    exact ⟨i, rfl, Message.asRead_ofType i m hm⟩
  | _ => exact hd

theorem elementsAsRead_ofKind (kind : Kind) (ds : List Datum)
    (hds : ElementsOfKind schema kind ds) : ElementsOfKind schema kind (elementsAsRead o ds) := by
  cases ds with
  | nil => trivial
  | cons d ds =>
    exact ⟨Datum.asRead_ofKind kind d hds.1, elementsAsRead_ofKind kind ds hds.2⟩

theorem entriesAsRead_ofKind (keyKind : KeyKind) (kind : Kind) (es : List (MapKey × Datum))
    (hes : EntriesOfKind schema keyKind kind es) :
    EntriesOfKind schema keyKind kind (entriesAsRead o es) := by
  cases es with
  | nil => trivial
  | cons e es =>
    obtain ⟨key, d⟩ := e
    exact ⟨MapKey.asRead_ofKind hes.1, Datum.asRead_ofKind kind d hes.2.1,
      entriesAsRead_ofKind keyKind kind es hes.2.2⟩

theorem Content.asRead_ofField (f : Field) (c : Content) (hc : c.OfField schema f) :
    (c.asRead o).OfField schema f := by
  cases c with
  | absent => exact hc
  | single d => exact ⟨hc.1, Datum.asRead_ofKind f.kind d hc.2⟩
  | list ds => exact ⟨hc.1, elementsAsRead_ofKind f.kind ds hc.2⟩
  | map es =>
    obtain ⟨k, hmap, hes, hkeys⟩ := hc
    refine ⟨k, hmap, entriesAsRead_ofKind k f.kind es hes, ?_⟩
    rw [entriesAsRead_keys]
    exact hkeys.map MapKey.asRead_injective

theorem plainAsRead_ofFields (cs : List Content) (fs : List Field)
    (hcs : PlainOfFields schema cs fs) : PlainOfFields schema (plainAsRead o cs) fs := by
  cases cs with
  | nil => exact hcs
  | cons c cs =>
    cases fs with
    | nil => cases hcs
    | cons f fs => exact ⟨Content.asRead_ofField f c hcs.1, plainAsRead_ofFields cs fs hcs.2⟩

theorem choicesAsRead_ofType (type : MessageType) (cs : List Choice) (index : Nat)
    (hcs : ChoicesOfType schema type cs index) :
    ChoicesOfType schema type (choicesAsRead o cs) index := by
  cases cs with
  | nil => exact hcs
  | cons c cs =>
    have hrest := choicesAsRead_ofType type cs (index + 1) hcs.2
    cases c with
    | unset => exact ⟨trivial, hrest⟩
    | member k d =>
      obtain ⟨f, hf, hd⟩ := hcs.1
      exact ⟨⟨f, hf, Datum.asRead_ofKind f.kind d hd⟩, hrest⟩

/-- A message as it is read is a message of the same type. -/
theorem Message.asRead_ofType (index : Nat) (m : Message) (hm : m.OfType schema index) :
    (m.asRead o).OfType schema index := by
  cases m with
  | mk plain choices =>
    exact ⟨plainAsRead_ofFields plain _ hm.1, choicesAsRead_ofType _ choices 0 hm.2⟩

end

/-! ## Decoding everything -/

mutual

theorem Datum.asRead_decodeAll (d : Datum) : d.asRead .decodeAll = d := by
  cases d with
  | message m => rw [Datum.asRead, Message.asRead_decodeAll m]
  | _ => rfl

theorem elementsAsRead_decodeAll (ds : List Datum) : elementsAsRead .decodeAll ds = ds := by
  cases ds with
  | nil => rfl
  | cons d ds => rw [elementsAsRead, Datum.asRead_decodeAll d, elementsAsRead_decodeAll ds]

theorem entriesAsRead_decodeAll (es : List (MapKey × Datum)) :
    entriesAsRead .decodeAll es = es := by
  cases es with
  | nil => rfl
  | cons e es =>
    obtain ⟨key, d⟩ := e
    have hkey : key.asRead .decodeAll = key := by cases key <;> rfl
    rw [entriesAsRead, hkey, Datum.asRead_decodeAll d, entriesAsRead_decodeAll es]

theorem Content.asRead_decodeAll (c : Content) : c.asRead .decodeAll = c := by
  cases c with
  | absent => rfl
  | single d => rw [Content.asRead, Datum.asRead_decodeAll d]
  | list ds => rw [Content.asRead, elementsAsRead_decodeAll ds]
  | map es => rw [Content.asRead, entriesAsRead_decodeAll es]

theorem plainAsRead_decodeAll (cs : List Content) : plainAsRead .decodeAll cs = cs := by
  cases cs with
  | nil => rfl
  | cons c cs => rw [plainAsRead, Content.asRead_decodeAll c, plainAsRead_decodeAll cs]

theorem choicesAsRead_decodeAll (cs : List Choice) : choicesAsRead .decodeAll cs = cs := by
  cases cs with
  | nil => rfl
  | cons c cs =>
    cases c with
    | unset => rw [choicesAsRead, choicesAsRead_decodeAll cs]
    | member k d => rw [choicesAsRead, Datum.asRead_decodeAll d, choicesAsRead_decodeAll cs]

/-- With everything decoded a message is read as itself. -/
theorem Message.asRead_decodeAll (m : Message) : m.asRead .decodeAll = m := by
  cases m with
  | mk plain choices =>
    rw [Message.asRead, plainAsRead_decodeAll plain, choicesAsRead_decodeAll choices]

end

/-! ## Names -/

/-- The names of a schema are read as themselves. -/
structure Schema.NamesRead (schema : Schema) (o : ReadOptions) : Prop where
  fields : ∀ type ∈ schema.messages, ∀ f ∈ type.fields, o.stringOf f.jsonName = f.jsonName
  values : ∀ e ∈ schema.enums, ∀ v ∈ e.values, o.stringOf v.name = v.name

theorem Schema.namesRead_decodeAll (schema : Schema) : schema.NamesRead .decodeAll where
  fields _ _ _ _ := rfl
  values _ _ _ _ := rfl

theorem Schema.NamesRead.field {index : Nat} {f : Field} (h : schema.NamesRead o)
    (hf : f ∈ (schema.messageType index).fields) : o.stringOf f.jsonName = f.jsonName := by
  unfold Schema.messageType at hf
  cases ht : schema.messages[index]? with
  | none =>
    rw [ht] at hf
    cases hf
  | some type =>
    rw [ht] at hf
    exact h.fields type (List.mem_of_getElem? ht) f hf

/-- The JSON name of a field is read as itself. -/
theorem Schema.NamesRead.text?_jsonName {index : Nat} {f : Field} (h : schema.NamesRead o)
    (hf : f ∈ (schema.messageType index).fields) :
    Quotation.text? o.decodeEscapes (StringLiteral.ofString f.jsonName) = some f.jsonName := by
  rw [StringLiteral.text?_ofString, h.field hf]

theorem Schema.NamesRead.value {i : Nat} {number : Int} (h : schema.NamesRead o) :
    o.stringOf ((schema.enumType i).nameOf number) = (schema.enumType i).nameOf number := by
  unfold EnumType.nameOf
  cases hv : (schema.enumType i).ofNumber? number with
  | none => exact o.stringOf_eq_self rfl
  | some v =>
    have hmem : v ∈ (schema.enumType i).values := List.mem_of_find?_eq_some hv
    unfold Schema.enumType at hmem
    cases he : schema.enums[i]? with
    | none =>
      rw [he] at hmem
      cases hmem
    | some e =>
      rw [he] at hmem
      exact h.values e (List.mem_of_getElem? he) v hmem

end ProtoJson
