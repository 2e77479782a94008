import Mathlib.Data.List.Forall2
import ProtoJson.Proofs.Declaration.Spelling
import ProtoJson.Proofs.Document.Members
import ProtoJson.Proofs.Document.Scan
import ProtoJson.Proofs.Schema.Keys
import ProtoJson.Request

/-!
# Reading a request from any spelling

`ReadsForm` says that a reader reads what a form says and does not see how it is spelled. It passes
from the readers of parts to those of lists and records, and so to that of requests:
`Request.decode_respells`. Since every JSON text is scanned to its document, this holds of texts
too.
-/

namespace ProtoJson

open Document Grammar

/-! ## Readers that do not see the spelling -/

theorem Document.asOptional_of_ne_null {α : Type} {read : Decoder α} {d : Document}
    (h : d ≠ .null) : asOptional read d = (read d).map some := by
  cases d with
  | null => exact absurd rfl h
  | _ => rfl

theorem Document.asInt32_ofInt {v : Int} (h : IntegerKind.int32.Holds v) :
    asInt32 (.number (NumberLiteral.ofInt v).digits) = .ok v := by
  rw [asInt32, NumberLiteral.integer?_digits_ofInt, Option.bind_some, IntegerKind.fit?, if_pos h,
    orMalformed]

/-- The reader reads what the form says: it reads the same from every spelling, and `a` from the
default. -/
structure ReadsForm {α : Type} (f : Form) (a : α) (read : Decoder α) : Prop where
  respelled {d d' : Document} (h : Respelling f d d') {b : α} (hb : read d = .ok b) :
    read d' = .ok b
  default {d : Document} (h : IsDefault f d) {b : α} (hb : read d = .ok b) : b = a

namespace ReadsForm

variable {α : Type} {f : Form} {a : α} {read : Decoder α}

theorem text : ReadsForm .text "" asString where
  respelled h := by cases h
  default h b hb := by
    cases h
    have hempty : asString (.string []) = .ok "" :=
      congrArg orMalformed (decodeString?_ofString (s := "") (by decide))
    exact Except.ok.inj (hb.symm.trans hempty)

theorem number : ReadsForm .number 0 asInt32 where
  respelled h := by cases h
  default h b hb := by
    cases h
    rw [← NumberLiteral.digits_zero, asInt32_ofInt (by decide)] at hb
    exact (Except.ok.inj hb).symm

theorem flag : ReadsForm .flag false asBool where
  respelled h := by cases h
  default h b hb := by
    cases h
    exact (Except.ok.inj hb).symm

/-- A reader that reads nothing. -/
theorem error (f : Form) (a : α) (e : DecodeError) : ReadsForm f a fun _ => .error e where
  respelled _ _ hb := by cases hb
  default _ _ hb := by cases hb

theorem optional (h : ReadsForm f a read) : ReadsForm (.optional f) none (asOptional read) where
  respelled hd b hb := by
    cases hd with
    | present hd =>
      obtain ⟨hne, hne'⟩ := hd.ne_null
      rw [asOptional_of_ne_null hne, Except.map_eq_ok_iff] at hb
      obtain ⟨c, hc, rfl⟩ := hb
      rw [asOptional_of_ne_null hne', h.respelled hd hc]
      rfl
  default hd b hb := by
    cases hd
    exact (Except.ok.inj hb).symm

/-- If every item is read as the form says, so is an array of them. -/
theorem items (h : ReadsForm f a read) : ReadsForm (.list f) [] (asItems read) where
  respelled hd b hb := by
    cases hd with
    | @item _ d d' xs ys hd =>
      obtain ⟨bs, hbs, hb⟩ := Except.bind_eq_ok_iff.1 hb
      refine Except.bind_eq_ok_iff.2 ⟨bs, ?_, hb⟩
      simp only [List.mapM_append, List.mapM_cons, Except.bind_eq_ok_iff] at hbs ⊢
      obtain ⟨us, hus, vs, ⟨c, hc, hvs⟩, hbs⟩ := hbs
      exact ⟨us, hus, vs, ⟨c, h.respelled hd hc, hvs⟩, hbs⟩
  default hd b hb := by
    cases hd
    exact (Except.ok.inj hb).symm

theorem list {read : Nat → Decoder α} (h : ∀ depth, ReadsForm f a (read depth)) (depth : Nat) :
    ReadsForm (.list f) [] (asList read depth) := by
  cases depth with
  | zero => exact .error _ _ _
  | succ depth => exact (h depth).items

end ReadsForm

/-! ## Choices from a table -/

/-- The entries of a table have the names, and their numbers count from one. -/
structure IsTableOf {α : Type} (names : List String) (table : List (String × Int × α)) : Prop where
  names_eq : table.map (·.1) = names
  numbers_eq : table.map (·.2.1) = (List.range table.length).map fun i => ((i + 1 : Nat) : Int)
  nodup : names.Nodup

theorem Label.isTableOf : IsTableOf labelNames Label.table := ⟨rfl, rfl, by decide⟩

theorem FieldType.isTableOf : IsTableOf fieldTypeNames FieldType.table := ⟨rfl, rfl, by decide⟩

/-- Name and number find the entry of a table in the place they choose. -/
theorem IsTableOf.named?_eq {α : Type} {names : List String} {table : List (String × Int × α)}
    (h : IsTableOf names table) {i : Nat} {d : Document} (hd : Chooses names i d) :
    d.named? table = table[i]?.map (·.2.2) := by
  have hnames : (table.map (·.1)).Nodup := h.names_eq ▸ h.nodup
  have hnumbers : (table.map (·.2.1)).Nodup := by
    rw [h.numbers_eq]
    exact List.nodup_range.map fun i j hij => by simpa using Int.ofNat.inj hij
  have hlength : names.length = table.length := by rw [← h.names_eq, List.length_map]
  cases hd with
  | @name raw name hraw hname =>
    rw [← h.names_eq, List.getElem?_map, Option.map_eq_some_iff] at hname
    obtain ⟨e, he, rfl⟩ := hname
    rw [named?, hraw, he, Option.bind_eq_bind, Option.bind_some]
    exact congrArg _ (find?_of_mem hnames (List.mem_of_getElem? he))
  | @number n hn hi =>
    rw [hlength] at hi
    have he : table[i]? = some table[i] := List.getElem?_eq_getElem hi
    have hnumber : ((i + 1 : Nat) : Int) = table[i].2.1 := by
      have hi' := congrArg (·[i]?) h.numbers_eq
      simpa [he, hi] using hi'.symm
    rw [named?, hn, he, hnumber, Option.bind_eq_bind, Option.bind_some]
    exact congrArg _ (find?_of_mem hnumbers (List.getElem_mem hi))

theorem ReadsForm.choice {α : Type} {names : List String} {table : List (String × Int × α)}
    (h : IsTableOf names table) (a : α) (unknown : String → DecodeError) (depth : Nat) :
    ReadsForm (.choice names) a (asNamed table unknown depth) where
  respelled hd b hb := by
    cases hd with
    | @choice _ i d d' hd hd' =>
      have hi : i < table.length := by
        rw [← List.length_map (·.1), h.names_eq]
        cases hd with
        | name _ hname => exact (List.getElem?_eq_some_iff.1 hname).1
        | number _ hi => exact hi
      rw [asNamed, h.named?_eq hd, List.getElem?_eq_getElem hi] at hb
      rw [asNamed, h.named?_eq hd', List.getElem?_eq_getElem hi]
      exact hb
  default hd := by cases hd

/-! ## Records -/

/-- The member of a record is read as its entry says, where the record starts out as `init`. -/
structure ReadsMember {σ : Type} (init : σ) (entry : String × Form) (m : RecordMember σ) :
    Prop where
  key : m.key = entry.1
  respelled {d d' : Document} (h : Respelling entry.2 d d') {r r' : σ} (hr : m.read d r = .ok r') :
    m.read d' r = .ok r'
  default {d : Document} (h : IsDefault entry.2 d) {r : σ} (hr : m.read d init = .ok r) : r = init

section Members

variable {σ α : Type} {init : σ} {entries : List (String × Form)} {members : List (RecordMember σ)}

theorem ReadsMember.of {f : Form} {a : α} {read : Decoder α} (h : ReadsForm f a read)
    {set : σ → α → σ} (hset : set init a = init) (key : String) :
    ReadsMember init (key, f) (.of key read set) where
  key := rfl
  respelled hd r r' hr := by
    obtain ⟨b, hb, rfl⟩ := Except.map_eq_ok_iff.1 hr
    exact Except.map_eq_ok_iff.2 ⟨b, h.respelled hd hb, rfl⟩
  default hd r hr := by
    obtain ⟨b, hb, rfl⟩ := Except.map_eq_ok_iff.1 hr
    rw [h.default hd hb, hset]

theorem exists_readsMember (h : List.Forall₂ (ReadsMember init) entries members) {key : String}
    {f : Form} (hf : entries.lookup key = some f) :
    ∃ m, members.find? (·.key == key) = some m ∧ ReadsMember init (key, f) m := by
  induction h with
  | nil => cases hf
  | @cons entry m _ _ hm _ ih =>
    rw [List.lookup_cons] at hf
    rw [List.find?_cons, hm.key]
    by_cases hkey : key = entry.1
    · rw [← hkey, beq_self_eq_true] at hf
      cases hf
      refine ⟨m, by rw [hkey, beq_self_eq_true], ?_⟩
      rw [hkey]
      exact hm
    · rw [beq_false_of_ne hkey] at hf
      rw [beq_false_of_ne (Ne.symm hkey)]
      exact ih hf

theorem find?_eq_none_of_readsMember (h : List.Forall₂ (ReadsMember init) entries members)
    {key : String} (hkey : entries.lookup key = none) :
    members.find? (·.key == key) = none := by
  induction h with
  | nil => rfl
  | @cons entry m _ _ hm _ ih =>
    rw [List.lookup_cons] at hkey
    rw [List.find?_cons, hm.key]
    by_cases hne : key = entry.1
    · rw [← hne, beq_self_eq_true] at hkey
      cases hkey
    · rw [beq_false_of_ne hne] at hkey
      rw [beq_false_of_ne (Ne.symm hne)]
      exact ih hkey

/-- In a record written as an array too, what a place holds may be spelled in another way. -/
theorem readPositions_respelled (h : List.Forall₂ (ReadsMember init) entries members)
    {key : String} {f : Form} {xs ys : List Document} (hf : entries[xs.length]? = some (key, f))
    {d d' : Document} (hd : Respelling f d d') {r r' : σ}
    (hr : readPositions members (xs ++ d :: ys) r = .ok r') :
    readPositions members (xs ++ d' :: ys) r = .ok r' := by
  induction xs generalizing entries members r with
  | nil =>
    cases h with
    | nil => cases hf
    | @cons entry m _ _ hm _ =>
      cases hf
      obtain ⟨r₁, hr₁, hr⟩ := Except.bind_eq_ok_iff.1 hr
      exact Except.bind_eq_ok_iff.2 ⟨r₁, hm.respelled hd hr₁, hr⟩
  | cons x xs ih =>
    cases h with
    | nil => cases hf
    | @cons entry m _ _ hm h =>
      obtain ⟨r₁, hr₁, hr⟩ := Except.bind_eq_ok_iff.1 hr
      exact Except.bind_eq_ok_iff.2 ⟨r₁, hr₁, ih h hf hr⟩

theorem asMembers_object_eq_ok_iff {r r' : σ} {ms : List (List UInt8 × Document)} :
    asMembers members r (.object ms true) = .ok r' ↔ MembersRead members [] ms r r' := by
  rw [asMembers, Except.bind_eq_ok_iff]
  simp only [readMembers_eq_ok_iff, ifWhole_eq_ok_iff, true_and, exists_eq_right]

/-- **A record is read the same from every spelling.** -/
theorem ReadsForm.asMembers {t : RecordType} (h : List.Forall₂ (ReadsMember init) t.members members)
    (hc : members.Pairwise RecordMember.Commutes) {a : σ} :
    ReadsForm (.record t) a (asMembers members init) where
  default hd := by cases hd
  respelled hd r hr := by
    cases hd with
    | permute hp =>
      rw [asMembers_object_eq_ok_iff] at hr ⊢
      exact hr.perm hc hp
    | add hkey ht hd =>
      rw [asMembers_object_eq_ok_iff] at hr ⊢
      exact .skip hkey (find?_eq_none_of_readsMember h ht) hd hr
    | alter hkey ht hd =>
      have hnone := find?_eq_none_of_readsMember h ht
      rw [asMembers_object_eq_ok_iff] at hr ⊢
      exact .skip hkey hnone hd (hr.of_cons_of_none hkey hnone)
    | drop hkey ht hd =>
      obtain ⟨m, hm, hreads⟩ := exists_readsMember h ht
      rw [asMembers_object_eq_ok_iff] at hr ⊢
      obtain ⟨-, r₁, hr₁, hr⟩ := hr.of_cons_of_some hkey hm
      -- The default changes nothing, and without it one name fewer has been seen.
      rw [hreads.default hd hr₁] at hr
      exact hr.mono (List.nil_subset _)
    | member hkey ht hd =>
      obtain ⟨m, hm, hreads⟩ := exists_readsMember h ht
      rw [asMembers_object_eq_ok_iff] at hr ⊢
      obtain ⟨hseen, r₁, hr₁, hr⟩ := hr.of_cons_of_some hkey hm
      exact .read hkey hm hseen (hreads.respelled hd hr₁) hr
    | position ht hd =>
      obtain ⟨r₁, hr₁, hr⟩ := Except.bind_eq_ok_iff.1 hr
      exact Except.bind_eq_ok_iff.2 ⟨r₁, readPositions_respelled h ht hd hr₁, hr⟩

theorem ReadsForm.record {t : RecordType} {members : Nat → List (RecordMember σ)}
    (h : ∀ depth, List.Forall₂ (ReadsMember init) t.members (members depth))
    (hc : ∀ depth, (members depth).Pairwise RecordMember.Commutes) {a : σ} (depth : Nat) :
    ReadsForm (.record t) a (asRecord members init depth) := by
  cases depth with
  | zero => exact .error _ _ _
  | succ depth => exact .asMembers (h depth) (hc depth)

end Members

/-! ## The readers of a request -/

theorem FieldDecl.reads (depth : Nat) : ReadsForm (.record .field) {} (FieldDecl.decode depth) := by
  refine .record (fun depth => ?_) (fun depth => ?_) depth
  · exact .cons (.of .text rfl _) <| .cons (.of .number rfl _) <|
      .cons (.of (.optional (.choice Label.isTableOf .optional _ depth)) rfl _) <|
      .cons (.of (.optional (.choice FieldType.isTableOf .double _ depth)) rfl _) <|
      .cons (.of (.optional .text) rfl _) <| .cons (.of (.optional .text) rfl _) <|
      .cons (.of (.optional .number) rfl _) <| .cons (.of .flag rfl _) .nil
  · simp [FieldDecl.members, RecordMember.commutes_of]

theorem OneofDecl.reads (depth : Nat) : ReadsForm (.record .oneof) {} (OneofDecl.decode depth) := by
  refine .record (fun depth => ?_) (fun depth => ?_) depth
  · exact .cons (.of .text rfl _) .nil
  · simp [OneofDecl.members]

theorem EnumValueDecl.reads (depth : Nat) :
    ReadsForm (.record .enumValue) {} (EnumValueDecl.decode depth) := by
  refine .record (fun depth => ?_) (fun depth => ?_) depth
  · exact .cons (.of .text rfl _) <| .cons (.of .number rfl _) .nil
  · simp [EnumValueDecl.members, RecordMember.commutes_of]

theorem EnumDecl.reads (depth : Nat) :
    ReadsForm (.record .enumeration) {} (EnumDecl.decode depth) := by
  refine .record (fun depth => ?_) (fun depth => ?_) depth
  · exact .cons (.of .text rfl _) <| .cons (.of (.list EnumValueDecl.reads depth) rfl _) .nil
  · simp [EnumDecl.members, RecordMember.commutes_of]

theorem MessageDecl.reads_options (depth : Nat) :
    ReadsForm (.record .options) false
      (asRecord (fun _ => MessageDecl.optionMembers) false depth) := by
  refine .record (fun depth => ?_) (fun depth => ?_) depth
  · exact .cons (.of .flag rfl _) .nil
  · simp [MessageDecl.optionMembers]

theorem MessageDecl.reads_members (depth : Nat) {messages : Decoder (List MessageDecl)}
    (h : ReadsForm (.list (.record .message)) [] messages) :
    ReadsForm (.record .message) {} (asMembers (MessageDecl.members depth messages) {}) := by
  refine .asMembers ?_ ?_
  · exact .cons (.of .text rfl _) <| .cons (.of (.list FieldDecl.reads depth) rfl _) <|
      .cons (.of h rfl _) <| .cons (.of (.list EnumDecl.reads depth) rfl _) <|
      .cons (.of (.list OneofDecl.reads depth) rfl _) <|
      .cons (.of (.optional (MessageDecl.reads_options depth)) rfl _) .nil
  · simp [MessageDecl.members, RecordMember.commutes_of]

/-- Messages are read two containers at a time. -/
theorem MessageDecl.reads : ∀ depth, ReadsForm (.record .message) {} (MessageDecl.decode depth)
  | 0 => .error _ _ _
  | 1 => reads_members 0 (.error _ _ _)
  | depth + 2 => reads_members (depth + 1) (reads depth).items

theorem FileDecl.reads (depth : Nat) : ReadsForm (.record .file) {} (FileDecl.decode depth) := by
  refine .record (fun depth => ?_) (fun depth => ?_) depth
  · exact .cons (.of .text rfl _) <| .cons (.of (.optional .text) rfl _) <|
      .cons (.of (.list MessageDecl.reads depth) rfl _) <|
      .cons (.of (.list EnumDecl.reads depth) rfl _) .nil
  · simp [FileDecl.members, RecordMember.commutes_of]

theorem Request.reads (depth : Nat) : ReadsForm (.record .request) {} (Request.decode depth) := by
  refine .record (fun depth => ?_) (fun depth => ?_) depth
  · exact .cons (.of (.list (fun _ => .text) depth) rfl _) <| .cons (.of (.optional .text) rfl _) <|
      .cons (.of (.list FileDecl.reads depth) rfl _) .nil
  · simp [Request.members, RecordMember.commutes_of]

/-- **A request is read the same from all its spellings.** -/
theorem Request.decode_respells {d d' : Document} (h : Respells (.record .request) d d')
    {depth : Nat} {r : Request} (hr : Request.decode depth d = .ok r) :
    Request.decode depth d' = .ok r := by
  induction h with
  | refl => exact hr
  | tail _ hstep ih => exact (Request.reads depth).respelled hstep ih

/-- **The spelling of a request does not matter.** Whatever text a request is decoded from, every
JSON text that spells the same request is decoded too and has the same answer. -/
theorem respond_respelled {σ : Type} [StrictQuotation σ] {text : List UInt8} {r : Response}
    (h : respond text = .ok r) (before after : Blanks) (t : Tree NumberLiteral σ)
    (ht : Respells (.record .request) (Document.scan text).1 t.document) :
    respond (before.bytes ++ (t.bytes ++ after.bytes)) = .ok r := by
  obtain ⟨req, hdecode, rfl⟩ := Except.map_eq_ok_iff.1 h
  obtain ⟨req', hreq, hrest⟩ := Except.bind_eq_ok_iff.1 hdecode
  obtain ⟨-, rfl⟩ := ifWhole_eq_ok_iff.1 hrest
  rw [respond, Document.decode_tree, Request.decode_respells ht hreq]
  rfl

/-! ## A request with one field -/

/-- The document of a request with one field. -/
def Document.oneField (d : Document) : Document :=
  .inList "protoFile" (.inList "messageType" (.inList "field" d))

/-- The text of such a request. -/
def Grammar.Tree.oneField (t : Tree NumberLiteral StringLiteral) :
    Tree NumberLiteral StringLiteral :=
  .inList "protoFile" (.inList "messageType" (.inList "field" t))

theorem Respells.inList {t t' : RecordType} {k : String} (hkey : '\\' ∉ k.toList)
    (ht : t.form? k = some (.list (.record t'))) {d d' : Document}
    (h : Respells (.record t') d d') : Respells (.record t) (.inList k d) (.inList k d') :=
  .member (decodeString?_ofString hkey) ht [] (.item [] [] h)

theorem Respells.oneField {d d' : Document} (h : Respells (.record .field) d d') :
    Respells (.record .request) (.oneField d) (.oneField d') := by
  have hmessage : Respells (.record .message) (.inList "field" d) (.inList "field" d') :=
    h.inList (by decide) rfl
  have hfile := hmessage.inList (t := .file) (k := "messageType") (by decide) rfl
  exact hfile.inList (by decide) rfl

theorem Request.decode_oneField {depth : Nat} {d : Document} {f : FieldDecl}
    (h : FieldDecl.decode depth d = .ok f) :
    Request.decode (depth + 6) (.oneField d)
      = .ok { files := [{ messages := [{ fields := [f] }] }] } := by
  simp [Document.oneField, Document.inList, Request.decode, Request.members, FileDecl.decode,
    FileDecl.members, MessageDecl.decode, MessageDecl.members, RecordMember.of, asRecord, asMembers,
    readMembers, asList, asItems, decodeString?_ofString, orMalformed, ifWhole, h, Except.map, bind,
    Except.bind, pure, Except.pure]

/-- A field whose label is written by its name. -/
def Grammar.Tree.namedLabel : Tree NumberLiteral StringLiteral :=
  .object .empty (.cons .empty (.ofString "number") .empty .empty (.number (.ofInt 0)) .empty
    (.cons .empty (.ofString "name") .empty .empty (.string (.ofString "x")) .empty
      (.cons .empty (.ofString "label") .empty .empty (.string (.ofString "LABEL_REPEATED")) .empty
        .nil)))

/-- The same field with its label by number, its number left out and a member nobody declares. -/
def Grammar.Tree.numberedLabel : Tree NumberLiteral StringLiteral :=
  .object .empty (.cons .empty (.ofString "note") .empty .empty (.array .empty .nil) .empty
    (.cons .empty (.ofString "label") .empty .empty (.number (.ofInt 3)) .empty
      (.cons .empty (.ofString "name") .empty .empty (.string (.ofString "x")) .empty .nil)))

theorem Grammar.Tree.document_namedLabel : namedLabel.document = .object
    [(Utf8.ofString "number", .number (NumberLiteral.ofInt 0).digits),
      (Utf8.ofString "name", .string (Utf8.ofString "x")),
      (Utf8.ofString "label", .string (Utf8.ofString "LABEL_REPEATED"))] true := rfl

theorem Grammar.Tree.document_numberedLabel : numberedLabel.document = .object
    [(Utf8.ofString "note", .array [] true),
      (Utf8.ofString "label", .number (NumberLiteral.ofInt 3).digits),
      (Utf8.ofString "name", .string (Utf8.ofString "x"))] true := rfl

theorem Respells.label :
    Respells (.record .field) Tree.namedLabel.document Tree.numberedLabel.document := by
  have hkey : ∀ key ∈ ["number", "label", "note"], decodeString? (Utf8.ofString key) = some key :=
    fun key hkey => decodeString?_ofString (by revert key; decide)
  have hchoice : Respelling (.choice labelNames) (.string (Utf8.ofString "LABEL_REPEATED"))
      (.number (NumberLiteral.ofInt 3).digits) :=
    .choice (i := 2) (.name (decodeString?_ofString (by decide)) rfl)
      (.number (NumberLiteral.integer?_digits_ofInt 3) (by decide))
  rw [Tree.document_namedLabel, Tree.document_numberedLabel, NumberLiteral.digits_zero]
  refine .head (.drop (hkey "number" (by decide)) rfl .number) (.head (.permute (.swap _ _ _)) ?_)
  refine .head (.member (hkey "label" (by decide)) rfl (.present hchoice)) ?_
  exact .single (.add (hkey "note" (by decide)) rfl rfl)

theorem FieldDecl.decode_namedLabel (depth : Nat) :
    FieldDecl.decode (depth + 1) Tree.namedLabel.document
      = .ok { name := "x", label := some .repeated } := by
  have hzero : asInt32 (.number (NumberLiteral.ofInt 0).digits) = .ok 0 :=
    asInt32_ofInt (by decide)
  rw [Tree.document_namedLabel]
  simp [FieldDecl.decode, FieldDecl.members, RecordMember.of, asRecord, asMembers, readMembers,
    decodeString?_ofString, orMalformed, ifWhole, hzero, asString, asOptional, Label.decode,
    asNamed, named?, Label.table, Except.map, bind, Except.bind]

/-- Both spellings of the field have the same answer. -/
theorem respond_respelled_field :
    ∃ r, respond Tree.namedLabel.oneField.bytes = .ok r ∧
      respond Tree.numberedLabel.oneField.bytes = .ok r := by
  have hblanks : ∀ t : Tree NumberLiteral StringLiteral,
      t.bytes = Blanks.empty.bytes ++ (t.bytes ++ Blanks.empty.bytes) := by simp
  have hdecode : Document.decode Request.decode Tree.namedLabel.oneField.bytes = .ok
      { files := [{ messages := [{ fields :=
          [{ name := "x", label := some .repeated }] }] }] } := by
    rw [Document.decode_bytes]
    exact Request.decode_oneField (FieldDecl.decode_namedLabel 120)
  have hnamed := congrArg (Except.map Request.respond) hdecode
  refine ⟨_, hnamed, ?_⟩
  rw [hblanks]
  refine respond_respelled hnamed _ _ _ ?_
  rw [hblanks Tree.namedLabel.oneField, Document.scan_tree]
  exact Respells.label.oneField

end ProtoJson
