import ProtoJson.Document.Decode
import ProtoJson.Proofs.Document.Token
import ProtoJson.Proofs.Grammar.Tree

/-!
# Scanning the trees of JSON

Every JSON text is scanned to the document of its tree, however its blanks stand and however deep it
nests: `Document.scan_tree`. The containers that are open lie on a stack, so what a value does is
said in front of any stack that can take one: `accept`.
-/

namespace ProtoJson

open Grammar

namespace Grammar

variable {σ : Type} [Quotation σ]

mutual

/-- The document of a JSON text. -/
def Tree.document : Tree NumberLiteral σ → Document
  | .null => .null
  | .bool b => .bool b
  | .number n => .number n.digits
  | .string s => .string (Quotation.raw s)
  | .array _ items => .array items.documents true
  | .object _ members => .object members.documents true

/-- The documents of the items of an array. -/
def Items.documents : Items NumberLiteral σ → List Document
  | .nil => []
  | .cons _ v _ rest => v.document :: rest.documents

/-- The documents of the members of an object, with their keys. -/
def Members.documents : Members NumberLiteral σ → List (List UInt8 × Document)
  | .nil => []
  | .cons _ key _ _ v _ rest => (Quotation.raw key, v.document) :: rest.documents

end

end Grammar

/-! ## Single steps -/

namespace DocumentState

/-- What comes of a step in front of a text, where the containers `stack` were open. -/
def resume (stack : List OpenDocument) (rest : List UInt8) : DocumentStep → Document × List UInt8
  | .more s => s.scan rest
  | .done d => (d, rest)
  | .fault => (abandon .cut stack, [])

/-- A scan does what the next token does and goes on behind it. -/
theorem scan_of_next? (s : DocumentState) {bs rest : List UInt8} {t : DocumentToken}
    (h : DocumentToken.next? bs = some (t, rest)) :
    s.scan bs = resume s.stack rest (s.step t) := by
  rw [scan]
  split
  · next hnone => rw [h] at hnone; cases hnone
  · next t' rest' hsome =>
    rw [h] at hsome
    cases hsome
    cases s.step t <;> rfl

/-- Containers that can take a value: the innermost one is no object that waits for a key. -/
def TakesValue : List OpenDocument → Prop
  | .object _ :: _ => False
  | _ => True

/-- What comes of a value in front of a text, where the containers `stack` are open. -/
def accept (d : Document) (rest : List UInt8) (stack : List OpenDocument) : Document × List UInt8 :=
  resume stack rest (deliver d stack)

theorem resume_deliver {stack : List OpenDocument} (hs : TakesValue stack)
    (stack' : List OpenDocument) (d : Document) (rest : List UInt8) :
    resume stack' rest (deliver d stack) = accept d rest stack := by
  cases stack with
  | nil => rfl
  | cons c stack =>
    cases c with
    | object members => exact hs.elim
    | _ => rfl

/-- Any value may come here. -/
structure AtValue (s : DocumentState) : Prop where
  takes : TakesValue s.stack
  step_eq (t : DocumentToken) (ht : t ≠ .closeArray) : s.step t = takeValue s.stack t

theorem atValue_value (stack : List OpenDocument) (hs : TakesValue stack) :
    AtValue ⟨stack, .value⟩ := ⟨hs, fun _ _ => rfl⟩

theorem atValue_firstItem {items : List Document} {stack : List OpenDocument} :
    AtValue ⟨.array items :: stack, .firstItem⟩ := by
  refine ⟨trivial, fun t ht => ?_⟩
  cases t with
  | closeArray => exact absurd rfl ht
  | _ => rfl

variable {s : DocumentState}

/-- A value without parts is taken as one token. -/
theorem AtValue.scan_scalar (hs : s.AtValue) {bs rest : List UInt8} {d : Document}
    (h : DocumentToken.next? bs = some (.scalar d, rest)) : s.scan bs = accept d rest s.stack := by
  rw [scan_of_next? s h, hs.step_eq _ (by nofun), takeValue, resume_deliver hs.takes]

theorem AtValue.scan_string (hs : s.AtValue) {bs rest raw : List UInt8}
    (h : DocumentToken.next? bs = some (.string raw, rest)) :
    s.scan bs = accept (.string raw) rest s.stack := by
  rw [scan_of_next? s h, hs.step_eq _ (by nofun), takeValue, resume_deliver hs.takes]

/-- A container is opened on top of the others. -/
theorem AtValue.scan_open (hs : s.AtValue) (w : Blanks) (rest : List UInt8) :
    s.scan (w.bytes ++ ascii '[' :: rest)
        = DocumentState.scan ⟨.array [] :: s.stack, .firstItem⟩ rest ∧
      s.scan (w.bytes ++ ascii '{' :: rest)
        = DocumentState.scan ⟨.object [] :: s.stack, .firstKey⟩ rest := by
  have harray := DocumentToken.next?_symbol w (b := ascii '[') (by decide) rfl rest
  have hobject := DocumentToken.next?_symbol w (b := ascii '{') (by decide) rfl rest
  rw [scan_of_next? s harray, scan_of_next? s hobject, hs.step_eq _ (by nofun),
    hs.step_eq _ (by nofun)]
  exact ⟨rfl, rfl⟩

/-! ## The inside of containers -/

/-- Where an array stands before an item that is the first or not. -/
def atItem (first : Bool) : DocumentStage := if first then .firstItem else .comma

/-- Where an object stands before a member that is the first or not. -/
def atMember (first : Bool) : DocumentStage := if first then .firstKey else .comma

variable {stack : List OpenDocument}

theorem scan_closeArray (hs : TakesValue stack) (w : Blanks) (first : Bool) (acc : List Document)
    (r : List UInt8) :
    DocumentState.scan ⟨.array acc :: stack, atItem first⟩ (w.bytes ++ ascii ']' :: r)
      = accept (.array acc.reverse true) r stack := by
  rw [scan_of_next? _ (DocumentToken.next?_symbol w (by decide) rfl r)]
  cases first <;> exact resume_deliver hs _ _ _

theorem scan_closeObject (hs : TakesValue stack) (w : Blanks) (first : Bool)
    (acc : List (List UInt8 × Document)) (r : List UInt8) :
    DocumentState.scan ⟨.object acc :: stack, atMember first⟩ (w.bytes ++ ascii '}' :: r)
      = accept (.object acc.reverse true) r stack := by
  rw [scan_of_next? _ (DocumentToken.next?_symbol w (by decide) rfl r)]
  cases first <;> exact resume_deliver hs _ _ _

/-- After the comma in front of it an item is a value like any other. -/
theorem exists_atValue_item (w before : Blanks) (first : Bool) (acc : List Document)
    (stack : List OpenDocument) (rest : List UInt8) :
    ∃ (s : DocumentState) (w' : Blanks), s.AtValue ∧ s.stack = .array acc :: stack ∧
      DocumentState.scan ⟨.array acc :: stack, atItem first⟩
        (w.bytes ++ (leadingComma first ++ (before.bytes ++ rest)))
      = s.scan (w'.bytes ++ rest) := by
  cases first with
  | true =>
    refine ⟨_, w ++ before, atValue_firstItem, rfl, ?_⟩
    rw [Blanks.bytes_append, List.append_assoc]
    rfl
  | false =>
    have hcomma := DocumentToken.next?_symbol w (b := ascii ',') (by decide) rfl
      (before.bytes ++ rest)
    refine ⟨⟨.array acc :: stack, .value⟩, before, atValue_value _ trivial, rfl, ?_⟩
    exact scan_of_next? _ hcomma

/-- After the comma in front of it, a key and a colon a member is a value like any other. -/
theorem exists_atValue_member {σ : Type} [StrictQuotation σ] (w before : Blanks) (first : Bool)
    (acc : List (List UInt8 × Document)) (stack : List OpenDocument) (key : σ)
    (afterKey : Blanks) (rest : List UInt8) :
    ∃ s : DocumentState, s.AtValue ∧ s.stack = .member acc (Quotation.raw key) :: stack ∧
      DocumentState.scan ⟨.object acc :: stack, atMember first⟩
        (w.bytes ++ (leadingComma first ++ (before.bytes ++ (Quotation.bytes key ++
          (afterKey.bytes ++ ascii ':' :: rest)))))
      = s.scan rest := by
  refine ⟨⟨.member acc (Quotation.raw key) :: stack, .value⟩, atValue_value _ trivial, rfl, ?_⟩
  have hcolon := DocumentToken.next?_symbol afterKey (b := ascii ':') (by decide) rfl rest
  have hstring := fun w => DocumentToken.next?_string w key (afterKey.bytes ++ ascii ':' :: rest)
  -- The first member follows its bracket, and each other one a comma.
  cases first with
  | true =>
    have hkey := hstring (w ++ before)
    rw [Blanks.bytes_append, List.append_assoc] at hkey
    calc _ = DocumentState.scan ⟨.member acc (Quotation.raw key) :: stack, .colon⟩
          (afterKey.bytes ++ ascii ':' :: rest) := scan_of_next? _ hkey
      _ = _ := scan_of_next? _ hcolon
  | false =>
    have hcomma := DocumentToken.next?_symbol w (b := ascii ',') (by decide) rfl
      (before.bytes ++ (Quotation.bytes key ++ (afterKey.bytes ++ ascii ':' :: rest)))
    calc _ = DocumentState.scan ⟨.object acc :: stack, .key⟩ (before.bytes ++
          (Quotation.bytes key ++ (afterKey.bytes ++ ascii ':' :: rest))) := scan_of_next? _ hcomma
      _ = DocumentState.scan ⟨.member acc (Quotation.raw key) :: stack, .colon⟩
          (afterKey.bytes ++ ascii ':' :: rest) := scan_of_next? _ (hstring before)
      _ = _ := scan_of_next? _ hcolon

end DocumentState

/-! ## Trees -/

open DocumentState

variable {σ : Type} [StrictQuotation σ]

/-- What follows an item or a member begins no number. -/
theorem Grammar.Items.endsRun (items : Items NumberLiteral σ) (r : List UInt8) :
    EndsRun (items.bytes false ++ ascii ']' :: r) := by
  cases items with
  | nil => exact .cons (by decide) _
  | cons before v after rest =>
    rw [Items.bytes_cons_append]
    exact .cons (by decide) _

theorem Grammar.Members.endsRun (members : Members NumberLiteral σ) (r : List UInt8) :
    EndsRun (members.bytes false ++ ascii '}' :: r) := by
  cases members with
  | nil => exact .cons (by decide) _
  | cons before key afterKey beforeValue v after rest =>
    rw [Members.bytes_cons_append]
    exact .cons (by decide) _

mutual

/-- A value is scanned to its document. -/
theorem Grammar.Tree.scan_bytes_append (t : Tree NumberLiteral σ) (w : Blanks) {s : DocumentState}
    (hs : s.AtValue) {r : List UInt8} (hr : EndsRun r) :
    s.scan (w.bytes ++ (t.bytes ++ r)) = accept t.document r s.stack := by
  match t with
  | .null => exact hs.scan_scalar (DocumentToken.next?_append w (by decide) _)
  | .bool true => exact hs.scan_scalar (DocumentToken.next?_append w (by decide) _)
  | .bool false => exact hs.scan_scalar (DocumentToken.next?_append w (by decide) _)
  | .number n => exact hs.scan_scalar (DocumentToken.next?_number w n hr)
  | .string q => exact hs.scan_string (DocumentToken.next?_string w q r)
  | .array pad items =>
    have hitems := items.scan_bytes_append pad true [] hs.takes r
    rw [Tree.bytes, List.cons_append, List.append_assoc, List.append_assoc, List.singleton_append,
      (hs.scan_open w _).1]
    exact hitems
  | .object pad members =>
    have hmembers := members.scan_bytes_append pad true [] hs.takes r
    rw [Tree.bytes, List.cons_append, List.append_assoc, List.append_assoc, List.singleton_append,
      (hs.scan_open w _).2]
    exact hmembers

/-- The items of an array are scanned to their documents. -/
theorem Grammar.Items.scan_bytes_append (items : Items NumberLiteral σ) (w : Blanks) (first : Bool)
    (acc : List Document) {stack : List OpenDocument} (hs : TakesValue stack) (r : List UInt8) :
    DocumentState.scan ⟨.array acc :: stack, atItem first⟩
        (w.bytes ++ (items.bytes first ++ ascii ']' :: r))
      = accept (.array (acc.reverse ++ items.documents) true) r stack := by
  match items with
  | .nil =>
    rw [Items.documents, List.append_nil]
    exact scan_closeArray hs w first acc r
  | .cons before v after rest =>
    obtain ⟨s, w', hvalue, hstack, hscan⟩ := exists_atValue_item w before first acc stack
      (v.bytes ++ (after.bytes ++ (rest.bytes false ++ ascii ']' :: r)))
    have hrest := rest.scan_bytes_append after false (v.document :: acc) hs r
    -- Behind the item stands a comma or the bracket, where a number ends.
    rw [Items.bytes_cons_append, hscan,
      v.scan_bytes_append w' hvalue ((rest.endsRun r).blanks after), hstack, Items.documents]
    rw [List.reverse_cons, List.append_assoc, List.singleton_append] at hrest
    exact hrest

/-- The members of an object are scanned to their keys and documents. -/
theorem Grammar.Members.scan_bytes_append (members : Members NumberLiteral σ) (w : Blanks)
    (first : Bool) (acc : List (List UInt8 × Document)) {stack : List OpenDocument}
    (hs : TakesValue stack) (r : List UInt8) :
    DocumentState.scan ⟨.object acc :: stack, atMember first⟩
        (w.bytes ++ (members.bytes first ++ ascii '}' :: r))
      = accept (.object (acc.reverse ++ members.documents) true) r stack := by
  match members with
  | .nil =>
    rw [Members.documents, List.append_nil]
    exact scan_closeObject hs w first acc r
  | .cons before key afterKey beforeValue v after rest =>
    obtain ⟨s, hvalue, hstack, hscan⟩ := exists_atValue_member w before first acc stack key afterKey
      (beforeValue.bytes ++ (v.bytes ++ (after.bytes ++ (rest.bytes false ++ ascii '}' :: r))))
    have hrest := rest.scan_bytes_append after false ((Quotation.raw key, v.document) :: acc) hs r
    rw [Members.bytes_cons_append, hscan,
      v.scan_bytes_append beforeValue hvalue ((rest.endsRun r).blanks after), hstack,
      Members.documents]
    rw [List.reverse_cons, List.append_assoc, List.singleton_append] at hrest
    exact hrest

end

/-- **Every JSON text is scanned to the document of its tree.** -/
theorem Document.scan_tree (before after : Blanks) (t : Tree NumberLiteral σ) :
    Document.scan (before.bytes ++ (t.bytes ++ after.bytes)) = (t.document, after.bytes) := by
  have hend : EndsRun after.bytes := by
    have hnil : EndsRun [] := fun _ _ h => by cases h
    simpa using hnil.blanks after
  exact t.scan_bytes_append before (atValue_value [] trivial) hend

/-- What is read from a JSON text is what is read from its document. -/
theorem Document.decode_tree {α : Type} (read : Nat → Decoder α) (before after : Blanks)
    (t : Tree NumberLiteral σ) :
    Document.decode read (before.bytes ++ (t.bytes ++ after.bytes)) = read maxDepth t.document := by
  rw [Document.decode, Document.scan_tree]
  dsimp only
  rw [List.all_eq_true.2 after.blank]
  cases read maxDepth t.document <;> rfl

/-- Nor need there be blanks around it. -/
theorem Document.decode_bytes {α : Type} (read : Nat → Decoder α) (t : Tree NumberLiteral σ) :
    Document.decode read t.bytes = read maxDepth t.document := by
  simpa using Document.decode_tree read .empty .empty t

/-! ## Small documents -/

/-- An object of one member, which holds a list of one item. -/
def Document.inList (key : String) (d : Document) : Document :=
  .object [(Utf8.ofString key, .array [d] true)] true

/-- The text of such an object. -/
def Grammar.Tree.inList (key : String) (t : Tree NumberLiteral StringLiteral) :
    Tree NumberLiteral StringLiteral :=
  .object .empty (.cons .empty (.ofString key) .empty .empty
    (.array .empty (.cons .empty t .empty .nil)) .empty .nil)

end ProtoJson
