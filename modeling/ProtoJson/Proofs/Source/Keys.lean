import ProtoJson.Proofs.Reader.EscapedBytes
import ProtoJson.Proofs.Source.Literal
import ProtoJson.Proofs.Source.Message

/-!
# Keys of generated source

The writer of a message has a byte-string literal in front of the value of a field, and its reader
has an arm for the field. Three escapings meet here: the name is escaped as JSON and then as a
literal in the writer, and as a quoted text in the reader. What a reader takes from the bytes of the
literal is the text of the arm, whatever characters the name has.
-/

namespace ProtoJson

open LayoutStep Grammar MessageCode

/-! ## Literals of keys -/

/-- The bracket between the key of a field and its value. -/
def Field.opening (f : Field) : String :=
  match f.cardinality with
  | .singular => ""
  | .list => "["
  | .map _ => "\x7b"

/-- A literal that is written in front of the value of a field: its bytes are a string that is read
as `jsonName`, a colon and a bracket, and no character in it ends it. -/
structure IsKeyLiteral (jsonName opening literal : String) : Prop where
  denotes : ∃ q : StringLiteral,
    (∀ cs, readByteLiteral? (literal.toList ++ cs)
      = some (Quotation.bytes q ++ ascii ':' :: Utf8.ofString opening, cs)) ∧
    ∀ after decodeBase64, ∃ s',
      (Reader.ofBytes (Quotation.bytes q ++ ascii ':' :: after) ⟨true, decodeBase64⟩).string
        = (.ok jsonName, s') ∧ s'.rest = ascii ':' :: after
  printable : ∀ ch ∈ literal.toList, 0x20 ≤ ch.toNat ∧ ch.toNat ≤ 0x7e
  closed : ∃ body, literal.toList = 'b' :: '"' :: (body ++ ['"']) ∧ hasOpenQuote body = false

theorem keyBytes_eq (jsonName opening : String) : keyBytes jsonName opening
    = Quotation.bytes (StringLiteral.ofString jsonName) ++ ascii ':' :: Utf8.ofString opening := by
  rw [keyBytes, Buffer.writeRaw, Buffer.toList_writeChars, Buffer.toList_writeByte,
    Buffer.toList_writeQuoted, Buffer.toList_empty]
  simp [Utf8.ofString]

theorem isKeyLiteral_keyLiteral (jsonName opening : String) :
    IsKeyLiteral jsonName opening (keyLiteral jsonName opening) where
  denotes := by
    refine ⟨.ofString jsonName, fun cs => ?_, fun after decodeBase64 => ?_⟩
    · rw [keyLiteral, readByteLiteral?_byteLiteral, keyBytes_eq]
    · obtain ⟨s', hread, hrest, -⟩ := Reader.string_quotation (.ofString jsonName)
        (EndsRun.cons (b := ascii ':') (by decide) after) decodeBase64
      rw [StringLiteral.meaning_ofString] at hread
      exact ⟨s', hread, hrest⟩
  printable := fun _ h => printable_of_mem_byteLiteral h
  closed := ⟨_, toList_byteLiteral _, hasOpenQuote_flatMap _⟩

/-! ## What is read -/

namespace MessageCode

/-- The literal that a line writes as it is. -/
def literal? : LayoutStep → Option String
  | line text => between? "buf.write(" ");" text
  | blank | enter _ | leave _ | turn _ => none

@[simp] theorem literal?_enter (text : String) : literal? (enter text) = none := rfl

@[simp] theorem literal?_leave (text : String) : literal? (leave text) = none := rfl

end MessageCode

/-! ## Writing and reading a field -/

namespace MessageType

variable (c : SourceContext) (m : MessageType) (f : Field)

theorem literal?_writeKey (opening : String) :
    literal? (writeKey f opening) = some (keyLiteral f.jsonName opening) :=
  between?_eq "buf.write(" ");" (keyLiteral f.jsonName opening)

/-- Values are written by other functions. -/
theorem literal?_writeValue (kind : Kind) (place : Place) :
    literal? (line (c.writeValue kind place)) = none := by
  have hcall : ∀ text : String, text.toList[9]? ≠ some '(' → literal? (line text) = none :=
    fun text => between?_eq_none rfl
  have hcodec : ∀ text : String, text.toList[0]? ≠ some 'b' → literal? (line text) = none :=
    fun text => between?_eq_none rfl
  unfold SourceContext.writeValue
  cases kind with
  | message i =>
    dsimp only
    exact hcodec _ (by simp [SourceContext.codec, toString])
  | integer kind => cases kind <;> exact hcall _ (by simp [toString])
  | _ => exact hcall _ (by simp [toString])

theorem literals_writeField :
    gather literal? (writeField c f) = [keyLiteral f.jsonName f.opening] := by
  have hcomma : literal? writeComma = none :=
    between?_eq_none (n := 9) (c := '(') rfl (by simp)
  have hclose (bracket : String) : gather literal? (writeClose bracket) = [] := by
    have hfix : literal? (line "buf.fix_symbol();") = none :=
      between?_eq_none (n := 4) (c := 'w') rfl (by simp)
    have hbyte : literal? (line s!"buf.write_byte(b'{bracket}');") = none :=
      between?_eq_none (n := 9) (c := '(') rfl (by simp [toString])
    rw [writeClose, gather_cons, gather_cons, hfix, hbyte]
    rfl
  have hkey : literal? (line "buf.write_map_key(k);") = none :=
    between?_eq_none (n := 9) (c := '(') rfl (by simp)
  unfold writeField Field.opening
  cases f.cardinality with
  | singular =>
    dsimp only
    split <;> simp [literal?_writeKey, literal?_writeValue, hcomma]
  | list => simp [literal?_writeKey, literal?_writeValue, hcomma, hclose]
  | map key => simp [literal?_writeKey, literal?_writeValue, hcomma, hclose, hkey]

/-- The part of the writer of a message that writes a field. -/
def writePart : List LayoutStep :=
  match f.oneof with
  | none => writeField c f
  | some index =>
    (m.oneofs[index]?.map fun o => block s!"{o.typeName}::{f.variant}(v) => \x7b"
      [writeKey f "", line (c.writeValue f.kind (.borrowed "v"))]).getD []

variable {m f}

theorem literals_writePart (h : ∀ j ∈ f.oneof, j < m.oneofs.length ∧ f.cardinality = .singular) :
    gather literal? (writePart c m f) = [keyLiteral f.jsonName f.opening] := by
  unfold writePart
  cases honeof : f.oneof with
  | none => exact literals_writeField c f
  | some j =>
    obtain ⟨hj, hsingular⟩ := h j honeof
    have hopening : f.opening = "" := by rw [Field.opening, hsingular]
    dsimp only
    rw [List.getElem?_eq_getElem hj, Option.map_some, Option.getD_some, gather_block,
      gather_cons, gather_cons, literal?_writeKey, literal?_writeValue, hopening]
    rfl

/-- What writes the plain fields and the oneofs is a part of the writer. -/
theorem isInfix_writeSteps {part : List LayoutStep}
    (h : part <:+: m.plainFields.flatMap (writeField c) ++
      m.oneofs.zipIdx.flatMap fun e => m.writeOneof c e.1 e.2) :
    part <:+: m.writeSteps c := by
  unfold writeSteps
  exact ((h.trans (List.prefix_append _ _).isInfix).trans (List.suffix_cons _ _).isInfix).trans
    (isInfix_block _ _)

theorem writePart_isInfix (hf : f ∈ m.fields) (h : ∀ j ∈ f.oneof, j < m.oneofs.length) :
    writePart c m f <:+: m.writeSteps c := by
  refine isInfix_writeSteps c ?_
  unfold writePart
  cases honeof : f.oneof with
  | none =>
    have hplain : f ∈ m.plainFields := List.mem_filter.2 ⟨hf, by rw [honeof]; rfl⟩
    exact (isInfix_flatMap hplain (writeField c)).trans (List.prefix_append _ _).isInfix
  | some j =>
    have hmember : f ∈ m.members j := List.mem_filter.2 ⟨hf, by simpa using honeof⟩
    obtain ⟨o, ho⟩ : ∃ o, m.oneofs[j]? = some o := ⟨_, List.getElem?_eq_getElem (h j honeof)⟩
    have hpair : (o, j) ∈ m.oneofs.zipIdx := List.mem_zipIdx_iff_getElem?.2 ho
    have harm := isInfix_flatMap hmember fun f => block s!"{o.typeName}::{f.variant}(v) => \x7b"
      [writeKey f "", line (c.writeValue f.kind (.borrowed "v"))]
    have honeofSteps := isInfix_flatMap hpair fun e => m.writeOneof c e.1 e.2
    dsimp only
    rw [ho, Option.map_some, Option.getD_some]
    refine List.IsInfix.trans ?_ (honeofSteps.trans (List.suffix_append _ _).isInfix)
    exact ((harm.trans (isInfix_block _ _)).trans (List.prefix_append _ _).isInfix).trans
      (isInfix_block _ _)

theorem readArm_isInfix (hf : f ∈ m.fields) : m.readArm c f <:+: m.readSteps c := by
  have hitem : m.readArm c f <:+: m.readItem c := by
    unfold readItem
    rw [if_neg (by simpa using List.ne_nil_of_mem hf)]
    exact (((isInfix_flatMap hf (m.readArm c)).trans (List.prefix_append _ _).isInfix).trans
      (isInfix_block _ _)).trans (List.suffix_append _ _).isInfix
  have hloop : m.readArm c f <:+: readSequence "\x7b" "\x7d" (m.readItem c) := by
    unfold readSequence
    exact (((hitem.trans (List.prefix_append _ _).isInfix).trans (isInfix_block _ _)).trans
      (List.suffix_append _ _).isInfix).trans (List.prefix_append _ _).isInfix
  unfold readSteps
  exact (hloop.trans (List.suffix_append _ _).isInfix).trans (List.prefix_append _ _).isInfix

/-- The writer and the reader of a message agree on the key of a field: the one has a literal that
is read as the name, and the other an arm with the name. -/
structure AgreesOnKey (c : SourceContext) (m : MessageType) (f : Field) : Prop where
  written : writePart c m f <:+: m.writeSteps c
  read : m.readArm c f <:+: m.readSteps c
  literal : ∃ literal, gather literal? (writePart c m f) = [literal] ∧
    IsKeyLiteral f.jsonName f.opening literal
  arm : gather armKey? (m.readArm c f) = [f.jsonName]

end MessageType

/-- In the source of every schema that is made from declarations, writers and readers agree on all
keys. -/
theorem Schema.agreesOnKey_ofFiles {files : List FileDecl} {schema : Schema}
    (h : Schema.ofFiles files = .ok schema) (options : SourceOptions) {m : MessageType}
    (hm : m ∈ schema.messages) {f : Field} (hf : f ∈ m.fields) :
    m.source ⟨schema, options⟩ <:+: schema.sourceSteps options ∧
    m.AgreesOnKey ⟨schema, options⟩ f := by
  obtain ⟨p, -, hp⟩ := of_mem_mapM_ok (madeFrom_of_ofFiles h).messages hm
  have honeof := TypeTable.message_oneofs hp f hf
  have hsingular := TypeTable.message_singular hp f hf
  exact ⟨source_isInfix hm options, {
    written := MessageType.writePart_isInfix _ hf honeof
    read := MessageType.readArm_isInfix _ hf
    literal := ⟨_, MessageType.literals_writePart _ fun j hj => ⟨honeof j hj, hsingular j hj⟩,
      isKeyLiteral_keyLiteral f.jsonName f.opening⟩
    arm := MessageType.armKeys_readArm _ m honeof }⟩

/-- Names with quotes, control characters and a separator of lines. -/
theorem Schema.agreesOnKey_ofFiles_escaped :
    ∃ (files : List FileDecl) (schema : Schema) (m : MessageType) (f g : Field),
      Schema.ofFiles files = .ok schema ∧ m ∈ schema.messages ∧ m.fields = [f, g] ∧
      f.jsonName = "\"\\\n\u2028" ∧ f.opening = "[" ∧ g.jsonName = "é\x7f" ∧ g.oneof = some 0 ∧
      keyLiteral f.jsonName f.opening = "b\"\\\"\\\\\\\"\\\\\\\\\\\\n\\\\u2028\\\":[\"" ∧
      keyLiteral g.jsonName g.opening = "b\"\\\"\\xc3\\xa9\\x7f\\\":\"" ∧
      m.source ⟨schema, {}⟩ <:+: schema.sourceSteps {} ∧
      m.AgreesOnKey ⟨schema, {}⟩ f ∧ m.AgreesOnKey ⟨schema, {}⟩ g := by
  have hfiles : Schema.ofFiles
      [{ messages := [
          { name := "M"
            oneofs := [{ name := "o" }]
            fields := [
              { name := "f", jsonName := some "\"\\\n\u2028", type := some .bool,
                label := some .repeated },
              { name := "g", jsonName := some "é\x7f", type := some .bool,
                oneofIndex := some 0 }] }] }]
      = .ok
        { sources := [""]
          enums := []
          messages := [
            ⟨"M", "M", [⟨"f", "\"\\\n\u2028", .bool, .list, none⟩,
              ⟨"g", "é\x7f", .bool, .singular, some 0⟩], [⟨"o", "MO"⟩]⟩] } := rfl
  obtain ⟨hsource, hf⟩ := agreesOnKey_ofFiles hfiles {} List.mem_cons_self List.mem_cons_self
  obtain ⟨-, hg⟩ := agreesOnKey_ofFiles hfiles {} List.mem_cons_self
    (List.mem_cons_of_mem _ List.mem_cons_self)
  exact ⟨_, _, _, _, _, hfiles, List.mem_cons_self, rfl, rfl, rfl, rfl, rfl, by decide +kernel,
    by decide +kernel, hsource, hf, hg⟩

end ProtoJson
