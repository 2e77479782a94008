import Mathlib.Data.List.Basic
import Mathlib.Data.String.Basic
import ProtoJson.Message.Decode

/-!
# Messages of a type

A message is of a type of a schema if each of its fields holds what the field may hold: values of
the field's kind, a list or a map where the field is one, and nothing only where nothing may be
held.
-/

namespace ProtoJson

/-- The numbers that an enum holds: the declared ones. An enum that declares none holds zero. -/
def EnumType.Holds (e : EnumType) (number : Int) : Prop :=
  (e.ofNumber? number).isSome ∨ (e.default? = none ∧ number = 0)

/-- The keys of a kind. -/
def MapKey.OfKind (kind : KeyKind) : MapKey → Prop
  | .string _ => kind = .string
  | .bool _ => kind = .bool
  | .integer v => ∃ k, kind = .integer k ∧ k.Holds v

mutual

/-- The values of a kind. -/
def Datum.OfKind (schema : Schema) (kind : Kind) : Datum → Prop
  | .bool _ => kind = .bool
  | .integer v => ∃ k, kind = .integer k ∧ k.Holds v
  | .float32 _ => kind = .float32
  | .float64 _ => kind = .float64
  | .string _ => kind = .string
  | .bytes _ => kind = .bytes
  | .enumeration number => ∃ i, kind = .enumeration i ∧ (schema.enumType i).Holds number
  | .message m => ∃ i, kind = .message i ∧ Message.OfType schema i m

/-- The lists of values of a kind. -/
def ElementsOfKind (schema : Schema) (kind : Kind) : List Datum → Prop
  | [] => True
  | d :: ds => Datum.OfKind schema kind d ∧ ElementsOfKind schema kind ds

/-- The entries whose keys and values are of their kinds. -/
def EntriesOfKind (schema : Schema) (keyKind : KeyKind) (kind : Kind) :
    List (MapKey × Datum) → Prop
  | [] => True
  | (key, d) :: es =>
    key.OfKind keyKind ∧ Datum.OfKind schema kind d ∧ EntriesOfKind schema keyKind kind es

/-- What a field may hold. The keys of a map are distinct, in any order. -/
def Content.OfField (schema : Schema) (f : Field) : Content → Prop
  | .absent => schema.initial f = .absent
  | .single d => f.cardinality = .singular ∧ Datum.OfKind schema f.kind d
  | .list ds => f.cardinality = .list ∧ ElementsOfKind schema f.kind ds
  | .map es => ∃ k, f.cardinality = .map k ∧ EntriesOfKind schema k f.kind es ∧
    (es.map Prod.fst).Nodup

/-- Contents field by field. -/
def PlainOfFields (schema : Schema) : List Content → List Field → Prop
  | [], [] => True
  | c :: cs, f :: fs => Content.OfField schema f c ∧ PlainOfFields schema cs fs
  | _, _ => False

/-- What a oneof with these members may hold. -/
def Choice.OfMembers (schema : Schema) (members : List Field) : Choice → Prop
  | .unset => True
  | .member k d => ∃ f, members[k]? = some f ∧ Datum.OfKind schema f.kind d

/-- Choices oneof by oneof. `index` is the number of the first. -/
def ChoicesOfType (schema : Schema) (type : MessageType) : List Choice → Nat → Prop
  | [], index => index = type.oneofs.length
  | c :: cs, index =>
    Choice.OfMembers schema (type.members index) c ∧ ChoicesOfType schema type cs (index + 1)

/-- The messages of a type. -/
def Message.OfType (schema : Schema) (index : Nat) : Message → Prop
  | .mk plain choices =>
    PlainOfFields schema plain (schema.messageType index).plainFields ∧
      ChoicesOfType schema (schema.messageType index) choices 0

end

variable {schema : Schema}

/-! ## Integers -/

namespace IntegerKind

theorem holds_of_fit? {kind : IntegerKind} {v w : Int} (h : kind.fit? v = some w) :
    kind.Holds w := by
  rw [fit?] at h
  split at h
  · next hv =>
    cases h
    exact hv
  · cases h

/-- An integer text stands for a value in range. -/
theorem holds_of_parse? {kind : IntegerKind} {cs : List Char} {v : Int}
    (h : kind.parse? cs = some v) : kind.Holds v := by
  have hdigits : ∀ (cs : List Char) (f : Nat → Int),
      (digits? cs).bind (fun n => kind.fit? (f n)) = some v → kind.Holds v := by
    intro cs f h
    obtain ⟨n, -, hn⟩ := Option.bind_eq_some_iff.1 h
    exact holds_of_fit? hn
  unfold parse? at h
  split at h
  · exact hdigits _ _ h
  · split at h
    · exact hdigits _ _ h
    · cases h
  · exact hdigits _ _ h

end IntegerKind

/-! ## Lists -/

theorem elementsOfKind_iff (kind : Kind) (ds : List Datum) :
    ElementsOfKind schema kind ds ↔ ∀ d ∈ ds, d.OfKind schema kind := by
  induction ds with
  | nil => simp [ElementsOfKind]
  | cons d ds ih => simp [ElementsOfKind, ih]

theorem entriesOfKind_iff (keyKind : KeyKind) (kind : Kind) (es : List (MapKey × Datum)) :
    EntriesOfKind schema keyKind kind es ↔
      ∀ e ∈ es, e.1.OfKind keyKind ∧ e.2.OfKind schema kind := by
  induction es with
  | nil => simp [EntriesOfKind]
  | cons e es ih => simp [EntriesOfKind, ih, and_assoc]

theorem plainOfFields_iff (cs : List Content) (fs : List Field) :
    PlainOfFields schema cs fs ↔ cs.length = fs.length ∧
      ∀ (i : Nat) (c : Content) (f : Field), cs[i]? = some c → fs[i]? = some f →
        c.OfField schema f := by
  induction cs generalizing fs with
  | nil => cases fs <;> simp [PlainOfFields]
  | cons c cs ih =>
    cases fs with
    | nil => simp [PlainOfFields]
    | cons f fs =>
      rw [PlainOfFields, ih]
      constructor
      · rintro ⟨hc, hl, hcs⟩
        refine ⟨by simp [hl], fun i c' f' h h' => ?_⟩
        cases i with
        | zero =>
          cases h
          cases h'
          exact hc
        | succ i => exact hcs i c' f' h h'
      · rintro ⟨hl, hcs⟩
        exact ⟨hcs 0 c f rfl rfl, by simpa using hl, fun i c' f' h h' => hcs (i + 1) c' f' h h'⟩

theorem choicesOfType_iff (type : MessageType) (cs : List Choice) (index : Nat) :
    ChoicesOfType schema type cs index ↔ index + cs.length = type.oneofs.length ∧
      ∀ (j : Nat) (c : Choice), cs[j]? = some c →
        c.OfMembers schema (type.members (index + j)) := by
  induction cs generalizing index with
  | nil => simp [ChoicesOfType]
  | cons c cs ih =>
    rw [ChoicesOfType, ih, List.length_cons]
    constructor
    · rintro ⟨hc, hl, hcs⟩
      refine ⟨by omega, fun j c' h => ?_⟩
      cases j with
      | zero =>
        cases h
        exact hc
      | succ j =>
        rw [show index + (j + 1) = index + 1 + j by omega]
        exact hcs j c' h
    · rintro ⟨hl, hcs⟩
      refine ⟨hcs 0 c rfl, by omega, fun j c' h => ?_⟩
      rw [show index + 1 + j = index + (j + 1) by omega]
      exact hcs (j + 1) c' h

/-- The contents of a message of a type, by their places. -/
theorem Message.ofType_iff (index : Nat) (m : Message) :
    m.OfType schema index ↔
      (m.plain.length = (schema.messageType index).plainFields.length ∧
        ∀ (i : Nat) (c : Content) (f : Field), m.plain[i]? = some c →
          (schema.messageType index).plainFields[i]? = some f → c.OfField schema f) ∧
      m.choices.length = (schema.messageType index).oneofs.length ∧
        ∀ (j : Nat) (c : Choice), m.choices[j]? = some c →
          c.OfMembers schema ((schema.messageType index).members j) := by
  obtain ⟨plain, choices⟩ := m
  rw [Message.OfType, plainOfFields_iff, choicesOfType_iff]
  simp [Message.plain, Message.choices]

/-! ## Empty messages -/

theorem EnumType.holds_default (e : EnumType) : e.Holds ((e.default?.map (·.number)).getD 0) := by
  cases hd : e.default? with
  | none => exact .inr ⟨hd, rfl⟩
  | some v =>
    refine .inl ?_
    have hmem : v ∈ e.values := by
      unfold default? at hd
      cases h0 : e.ofNumber? 0 with
      | none =>
        rw [h0, Option.none_or] at hd
        exact List.mem_of_head? hd
      | some w =>
        rw [h0, Option.some_or] at hd
        cases hd
        exact List.mem_of_find?_eq_some h0
    show (e.ofNumber? v.number).isSome = true
    rw [ofNumber?, List.find?_isSome]
    exact ⟨v, hmem, by simp⟩

theorem Schema.initial_ofField (f : Field) : (schema.initial f).OfField schema f := by
  unfold Schema.initial
  cases hc : f.cardinality with
  | list => simp [Content.OfField, Schema.initial, hc]
  | map k => simp [Content.OfField, Schema.initial, hc]
  | singular =>
    dsimp only
    cases hk : f.kind with
    | integer k =>
      simp only [Schema.zero, Content.OfField, Datum.OfKind, hc, hk, true_and]
      exact ⟨k, rfl, by cases k <;> decide⟩
    | enumeration i =>
      simp only [Schema.zero, Content.OfField, Datum.OfKind, hc, hk, true_and]
      exact ⟨i, rfl, EnumType.holds_default _⟩
    | bytes => simp [Schema.zero, Content.OfField, Schema.initial, hc, hk]
    | message i => simp [Schema.zero, Content.OfField, Schema.initial, hc, hk]
    | _ => simp [Schema.zero, Content.OfField, Datum.OfKind, hc, hk]

/-- A message with no field set is of its type. -/
theorem Schema.emptyMessage_ofType (index : Nat) :
    (schema.emptyMessage index).OfType schema index := by
  rw [Message.ofType_iff]
  refine ⟨⟨by simp [Schema.emptyMessage, Message.plain], ?_⟩,
    by simp [Schema.emptyMessage, Message.choices], ?_⟩
  · intro i c f hc hf
    simp only [Schema.emptyMessage, Message.plain, List.getElem?_map, hf, Option.map_some,
      Option.some.injEq] at hc
    rw [← hc]
    exact Schema.initial_ofField f
  · intro j c hc
    simp only [Schema.emptyMessage, Message.choices, List.getElem?_map,
      Option.map_eq_some_iff] at hc
    obtain ⟨_, _, rfl⟩ := hc
    simp [Choice.OfMembers]

/-! ## Assignments -/

/-- A list with one place changed holds the new value there, and what it held elsewhere. -/
theorem getElem?_set_cases {α : Type} {xs : List α} {i i' : Nat} {a a' : α}
    (h : (xs.set i a)[i']? = some a') : (i' = i ∧ a' = a) ∨ xs[i']? = some a' := by
  by_cases hi : i = i'
  · subst hi
    have hlt : i < xs.length := by
      by_contra hlt
      rw [List.set_eq_of_length_le (not_lt.1 hlt), List.getElem?_eq_none (not_lt.1 hlt)] at h
      cases h
    rw [List.getElem?_set_self hlt, Option.some.injEq] at h
    exact .inl ⟨rfl, h.symm⟩
  · rw [List.getElem?_set_ne hi] at h
    exact .inr h

theorem Message.setPlain_ofType {index i : Nat} {m : Message} {f : Field} {c : Content}
    (hm : m.OfType schema index) (hf : (schema.messageType index).plainFields[i]? = some f)
    (hc : c.OfField schema f) : (m.setPlain i c).OfType schema index := by
  rw [Message.ofType_iff] at hm ⊢
  obtain ⟨⟨hlen, hplain⟩, hchoices⟩ := hm
  refine ⟨⟨by simpa [Message.setPlain, Message.plain] using hlen, ?_⟩, hchoices⟩
  intro i' c' f' hc' hf'
  rcases getElem?_set_cases hc' with ⟨rfl, rfl⟩ | hold
  · rw [hf, Option.some.injEq] at hf'
    rw [← hf']
    exact hc
  · exact hplain i' c' f' hold hf'

theorem Message.setChoice_ofType {index j : Nat} {m : Message} {c : Choice}
    (hm : m.OfType schema index) (hc : c.OfMembers schema ((schema.messageType index).members j)) :
    (m.setChoice j c).OfType schema index := by
  rw [Message.ofType_iff] at hm ⊢
  obtain ⟨hplain, hlen, hchoices⟩ := hm
  refine ⟨hplain, by simpa [Message.setChoice, Message.choices] using hlen, ?_⟩
  intro j' c' hc'
  rcases getElem?_set_cases hc' with ⟨rfl, rfl⟩ | hold
  · exact hc
  · exact hchoices j' c' hold

/-- What a plain field holds is what it may hold. -/
theorem Message.plain_ofField {index i : Nat} {m : Message} {f : Field}
    (hm : m.OfType schema index) (hf : (schema.messageType index).plainFields[i]? = some f)
    {c : Content} (hc : m.plain[i]? = some c) : c.OfField schema f :=
  ((Message.ofType_iff index m).1 hm).1.2 i c f hc hf

theorem Message.choice_ofMembers {index j : Nat} {m : Message} (hm : m.OfType schema index)
    {c : Choice} (hc : m.choices[j]? = some c) :
    c.OfMembers schema ((schema.messageType index).members j) :=
  ((Message.ofType_iff index m).1 hm).2.2 j c hc

/-- The first of a list is the first of those that share a property with it. -/
private theorem find?_filter_of_find? {α : Type} {p q : α → Bool} {xs : List α} {a : α}
    (h : xs.find? p = some a) (ha : q a = true) : (xs.filter q).find? p = some a := by
  induction xs with
  | nil => cases h
  | cons x xs ih =>
    cases hp : p x with
    | true =>
      rw [List.find?_cons_of_pos hp] at h
      cases h
      rw [List.filter_cons_of_pos ha, List.find?_cons_of_pos hp]
    | false =>
      rw [List.find?_cons_of_neg (by simp [hp])] at h
      cases hq : q x with
      | true => rw [List.filter_cons_of_pos hq, List.find?_cons_of_neg (by simp [hp]), ih h]
      | false => rw [List.filter_cons_of_neg (by simp [hq]), ih h]

theorem MessageType.of_plainFields {type : MessageType} {k : Nat} {f : Field}
    (h : type.plainFields[k]? = some f) : f ∈ type.fields ∧ f.oneof = none := by
  obtain ⟨hmem, honeof⟩ := List.mem_filter.1 (List.mem_of_getElem? h)
  exact ⟨hmem, Option.isNone_iff_eq_none.1 honeof⟩

theorem MessageType.of_members {type : MessageType} {j k : Nat} {f : Field}
    (h : (type.members j)[k]? = some f) : f ∈ type.fields ∧ f.oneof = some j := by
  obtain ⟨hmem, honeof⟩ := List.mem_filter.1 (List.mem_of_getElem? h)
  exact ⟨hmem, of_decide_eq_true honeof⟩

/-- A slot names a field of its type. -/
def Slot.IsOf (type : MessageType) : Slot → Prop
  | .plain i f => type.plainFields[i]? = some f
  | .member j k f => (type.members j)[k]? = some f

theorem MessageType.slot?_isOf {type : MessageType} {key : String} {slot : Slot}
    (h : type.slot? key = some slot) : slot.IsOf type := by
  unfold slot? at h
  obtain ⟨f, hf, hslot⟩ := Option.map_eq_some_iff.1 h
  rw [field?] at hf
  cases ho : f.oneof with
  | none =>
    rw [ho] at hslot
    subst hslot
    show type.plainFields[_]? = some f
    rw [← List.find?_eq_getElem?_findIdx]
    exact find?_filter_of_find? hf (by simp [ho])
  | some j =>
    rw [ho] at hslot
    subst hslot
    show (type.members j)[_]? = some f
    rw [← List.find?_eq_getElem?_findIdx]
    exact find?_filter_of_find? hf (by simp [ho])

/-! ## Entries -/

namespace MapKey

variable {kind : KeyKind} {a b c : MapKey}

theorem before_irrefl (a : MapKey) : a.before a = false := by
  cases a with
  | string s => simp [before]
  | bool b => cases b <;> rfl
  | integer v => simp [before]

theorem before_trans (hab : a.before b = true) (hbc : b.before c = true) : a.before c = true := by
  cases a <;> cases b <;> simp only [before, Bool.false_eq_true] at hab <;> cases c <;>
    simp only [before, Bool.false_eq_true] at hbc ⊢
  · simp only [decide_eq_true_eq] at *
    exact lt_trans hab hbc
  · simp_all
  · simp only [decide_eq_true_eq] at *
    exact lt_trans hab hbc

/-- Keys of one kind are in order. -/
theorem before_total (ha : a.OfKind kind) (hb : b.OfKind kind) (hab : a.before b = false)
    (hne : a ≠ b) : b.before a = true := by
  cases a <;> cases b <;> simp only [OfKind, before, ne_eq, string.injEq, bool.injEq,
    integer.injEq, decide_eq_false_iff_not, decide_eq_true_eq] at *
  · exact lt_of_le_of_ne (not_lt.1 hab) (Ne.symm hne)
  · rw [ha] at hb
    cases hb
  · rw [ha] at hb
    obtain ⟨k, hk, -⟩ := hb
    cases hk
  · rw [ha] at hb
    cases hb
  · rename_i x y
    cases x <;> cases y <;> simp_all
  · rw [ha] at hb
    obtain ⟨k, hk, -⟩ := hb
    cases hk
  · obtain ⟨k, hk, -⟩ := ha
    rw [hb] at hk
    cases hk
  · obtain ⟨k, hk, -⟩ := ha
    rw [hb] at hk
    cases hk
  · exact lt_of_le_of_ne (not_lt.1 hab) (Ne.symm hne)

theorem parse?_ofKind {s : String} {key : MapKey} (h : parse? kind s = some key) :
    key.OfKind kind := by
  cases kind with
  | string =>
    cases h
    rfl
  | bool =>
    rw [parse?] at h
    split at h
    · cases h
      rfl
    · split at h
      · cases h
        rfl
      · cases h
  | integer k =>
    obtain ⟨v, hv, rfl⟩ := Option.map_eq_some_iff.1 h
    exact ⟨k, rfl, IntegerKind.holds_of_parse? hv⟩

end MapKey

/-- Entries in ascending order of their keys. -/
def Ascending (es : List (MapKey × Datum)) : Prop :=
  es.Pairwise fun e e' => e.1.before e'.1 = true

theorem Ascending.nodup {es : List (MapKey × Datum)} (h : Ascending es) :
    (es.map Prod.fst).Nodup := by
  rw [List.Nodup, List.pairwise_map]
  refine h.imp fun hlt heq => ?_
  rw [heq, MapKey.before_irrefl] at hlt
  cases hlt

section Insertion

variable {key : MapKey} {d : Datum} {es : List (MapKey × Datum)}

/-- An entry that is inserted is put in front, takes the place of the first, or goes further. -/
theorem insertEntry_cons (key k : MapKey) (d old : Datum) (es : List (MapKey × Datum)) :
    (key.before k = true ∧
      insertEntry key d ((k, old) :: es) = ((key, d) :: (k, old) :: es, none)) ∨
    (key.before k = false ∧ key = k ∧
      insertEntry key d ((k, old) :: es) = ((key, d) :: es, some old)) ∨
    (key.before k = false ∧ key ≠ k ∧ insertEntry key d ((k, old) :: es)
      = ((k, old) :: (insertEntry key d es).1, (insertEntry key d es).2)) := by
  rw [insertEntry]
  cases hb : key.before k with
  | true => exact .inl ⟨rfl, rfl⟩
  | false =>
    by_cases hk : key = k
    · exact .inr (.inl ⟨rfl, hk, by simp [hk]⟩)
    · exact .inr (.inr ⟨rfl, hk, by simp [hk]⟩)

/-- Entries after an insertion are the new one and some of the old ones. -/
theorem mem_insertEntry {e : MapKey × Datum} (h : e ∈ (insertEntry key d es).1) :
    e = (key, d) ∨ e ∈ es := by
  induction es with
  | nil => exact .inl (List.mem_singleton.1 h)
  | cons e' es ih =>
    obtain ⟨k, old⟩ := e'
    rcases insertEntry_cons key k d old es with ⟨-, heq⟩ | ⟨-, -, heq⟩ | ⟨-, -, heq⟩ <;>
      rw [heq] at h
    · exact List.mem_cons.1 h
    · rcases List.mem_cons.1 h with h | h
      · exact .inl h
      · exact .inr (List.mem_cons_of_mem _ h)
    · rcases List.mem_cons.1 h with rfl | h
      · exact .inr List.mem_cons_self
      · exact (ih h).imp_right (List.mem_cons_of_mem _)

/-- What an insertion replaces stood in an entry. -/
theorem mem_of_insertEntry {old : Datum} (h : (insertEntry key d es).2 = some old) :
    ∃ k, (k, old) ∈ es := by
  induction es with
  | nil => cases h
  | cons e' es ih =>
    obtain ⟨k, w⟩ := e'
    rcases insertEntry_cons key k d w es with ⟨-, heq⟩ | ⟨-, -, heq⟩ | ⟨-, -, heq⟩ <;> rw [heq] at h
    · cases h
    · cases h
      exact ⟨k, List.mem_cons_self⟩
    · obtain ⟨k', hk'⟩ := ih h
      exact ⟨k', List.mem_cons_of_mem _ hk'⟩

/-- Insertion keeps the order of entries. -/
theorem Ascending.insertEntry {kind : KeyKind} (h : Ascending es)
    (hes : ∀ e ∈ es, e.1.OfKind kind) (hkey : key.OfKind kind) :
    Ascending (insertEntry key d es).1 := by
  induction es with
  | nil => exact List.pairwise_singleton _ _
  | cons e' es ih =>
    obtain ⟨k, old⟩ := e'
    obtain ⟨hfirst, hrest⟩ := List.pairwise_cons.1 h
    rcases insertEntry_cons key k d old es with ⟨hb, heq⟩ | ⟨-, rfl, heq⟩ | ⟨hb, hne, heq⟩ <;>
      rw [heq]
    · refine List.pairwise_cons.2 ⟨fun e he => ?_, h⟩
      rcases List.mem_cons.1 he with rfl | he
      · exact hb
      · exact MapKey.before_trans hb (hfirst e he)
    · exact List.pairwise_cons.2 ⟨hfirst, hrest⟩
    · have hk : k.before key = true :=
        MapKey.before_total hkey (hes _ List.mem_cons_self) hb hne
      refine List.pairwise_cons.2 ⟨fun e he => ?_, ih hrest fun e he => hes e (by simp [he])⟩
      rcases mem_insertEntry he with rfl | he
      · exact hk
      · exact hfirst e he

end Insertion

end ProtoJson
