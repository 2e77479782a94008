import ProtoJson.Proofs.Message.Conversion
import ProtoJson.Proofs.Message.Typing

/-!
# Normal forms of messages

What is written of a message fixes it but for two things: the order of the entries of its maps, and
the sign of a zero in a plain field, which is left out. The normal form has the entries in the order
of their keys and positive zeros, and all else as it was. How deeply a message is nested is counted
here too.
-/

namespace ProtoJson

variable {schema : Schema}

/-! ## Entries in order -/

/-- The entries of a map in ascending order of their keys. -/
def sortEntries (es : List (MapKey × Datum)) : List (MapKey × Datum) := addEntries es []

/-- An entry of a new key is put among the others. -/
theorem insertEntry_perm {key : MapKey} {d : Datum} {es : List (MapKey × Datum)}
    (h : key ∉ es.map Prod.fst) : (insertEntry key d es).1.Perm ((key, d) :: es) := by
  induction es with
  | nil => rfl
  | cons e es ih =>
    obtain ⟨k, old⟩ := e
    rw [List.map_cons, List.mem_cons, not_or] at h
    rcases insertEntry_cons key k d old es with ⟨-, heq⟩ | ⟨-, hk, -⟩ | ⟨-, -, heq⟩
    · rw [heq]
    · exact absurd hk h.1
    · rw [heq]
      exact ((ih h.2).cons (k, old)).trans (List.Perm.swap ..)

theorem addEntries_perm {es acc : List (MapKey × Datum)}
    (h : ((es ++ acc).map Prod.fst).Nodup) : (addEntries es acc).Perm (es ++ acc) := by
  induction es generalizing acc with
  | nil => rfl
  | cons e es ih =>
    have hcons := h
    rw [List.cons_append, List.map_cons, List.nodup_cons, List.map_append, List.mem_append,
      not_or] at hcons
    have hinsert : (insertEntry e.1 e.2 acc).1.Perm (e :: acc) := insertEntry_perm hcons.1.2
    have hmove : (es ++ (insertEntry e.1 e.2 acc).1).Perm (e :: es ++ acc) :=
      (hinsert.append_left es).trans List.perm_middle
    have hrest := ih ((hmove.map Prod.fst).nodup_iff.2 h)
    exact hrest.trans hmove

theorem addEntries_ascending {kind : KeyKind} {es acc : List (MapKey × Datum)}
    (hes : ∀ e ∈ es, e.1.OfKind kind) (hacc : ∀ e ∈ acc, e.1.OfKind kind) (h : Ascending acc) :
    Ascending (addEntries es acc) := by
  induction es generalizing acc with
  | nil => exact h
  | cons e es ih =>
    apply ih fun e' he' => hes e' (List.mem_cons_of_mem e he')
    · intro e' he'
      rcases mem_insertEntry he' with rfl | he'
      · exact hes e List.mem_cons_self
      · exact hacc e' he'
    · exact h.insertEntry hacc (hes e List.mem_cons_self)

/-- Entries with distinct keys are in order after sorting, and none is added or lost. -/
theorem sortEntries_spec {kind : KeyKind} {es : List (MapKey × Datum)}
    (hes : ∀ e ∈ es, e.1.OfKind kind) (h : (es.map Prod.fst).Nodup) :
    Ascending (sortEntries es) ∧ (sortEntries es).Perm es := by
  refine ⟨addEntries_ascending hes (by simp) List.Pairwise.nil, ?_⟩
  have hperm : (addEntries es []).Perm (es ++ []) := addEntries_perm (by rwa [List.append_nil])
  rwa [List.append_nil] at hperm

/-! ## Normal forms -/

/-- A single value with the sign of a zero dropped. -/
def Datum.dropSign : Datum → Datum
  | .float32 x => .float32 (if x.isZero then .zero else x)
  | .float64 x => .float64 (if x.isZero then .zero else x)
  | d => d

mutual

/-- The normal form of a value. -/
def Datum.normal : Datum → Datum
  | .message m => .message (Message.normal m)
  | .bool v => .bool v
  | .integer v => .integer v
  | .float32 x => .float32 x
  | .float64 x => .float64 x
  | .string s => .string s
  | .bytes bs => .bytes bs
  | .enumeration number => .enumeration number

/-- The normal forms of the elements of a list. Zeros keep their signs. -/
def normalElements : List Datum → List Datum
  | [] => []
  | d :: ds => Datum.normal d :: normalElements ds

/-- The entries of a map with their values in normal form. Zeros keep their signs. -/
def normalEntries : List (MapKey × Datum) → List (MapKey × Datum)
  | [] => []
  | (key, d) :: es => (key, Datum.normal d) :: normalEntries es

/-- The normal form of what a field holds. -/
def Content.normal : Content → Content
  | .absent => .absent
  | .single d => .single (Datum.normal d).dropSign
  | .list ds => .list (normalElements ds)
  | .map es => .map (sortEntries (normalEntries es))

/-- The normal forms of plain fields. -/
def normalPlain : List Content → List Content
  | [] => []
  | c :: cs => Content.normal c :: normalPlain cs

/-- The normal forms of oneofs. Zeros keep their signs. -/
def normalChoices : List Choice → List Choice
  | [] => []
  | .unset :: cs => .unset :: normalChoices cs
  | .member k d :: cs => .member k (Datum.normal d) :: normalChoices cs

/-- The normal form of a message. -/
def Message.normal : Message → Message
  | .mk plain choices => .mk (normalPlain plain) (normalChoices choices)

end

/-- A oneof with its value changed. -/
def Choice.map (g : Datum → Datum) : Choice → Choice
  | .unset => .unset
  | .member k d => .member k (g d)

theorem normalElements_eq_map (ds : List Datum) : normalElements ds = ds.map Datum.normal := by
  induction ds with
  | nil => rfl
  | cons d ds ih => rw [normalElements, ih, List.map_cons]

theorem normalEntries_eq_map (es : List (MapKey × Datum)) :
    normalEntries es = es.map (Prod.map id Datum.normal) := by
  induction es with
  | nil => rfl
  | cons e es ih =>
    rw [normalEntries, ih, List.map_cons]
    rfl

theorem normalPlain_eq_map (cs : List Content) : normalPlain cs = cs.map Content.normal := by
  induction cs with
  | nil => rfl
  | cons c cs ih => rw [normalPlain, ih, List.map_cons]

theorem normalChoices_eq_map (cs : List Choice) :
    normalChoices cs = cs.map (Choice.map Datum.normal) := by
  induction cs with
  | nil => rfl
  | cons c cs ih => cases c <;> (rw [normalChoices, ih, List.map_cons]; rfl)

/-- A field is left out as it was before. -/
@[simp] theorem Content.isEmpty_normal (c : Content) : c.normal.isEmpty = c.isEmpty := by
  cases c with
  | single d =>
    cases d with
    | float32 x =>
      show (if x.isZero then Binary.zero else x).isZero = x.isZero
      cases hx : x.isZero with
      | true => rfl
      | false => exact hx
    | float64 x =>
      show (if x.isZero then Binary.zero else x).isZero = x.isZero
      cases hx : x.isZero with
      | true => rfl
      | false => exact hx
    | _ => rfl
  | _ => rfl

/-- The sign of a value that is written is kept. -/
theorem Datum.dropSign_normal {d : Datum} (h : (Content.single d).isEmpty = false) :
    d.normal.dropSign = d.normal := by
  cases d with
  | float32 x =>
    have hx : x.isZero = false := h
    simp [normal, dropSign, hx]
  | float64 x =>
    have hx : x.isZero = false := h
    simp [normal, dropSign, hx]
  | _ => rfl

/-- The normal form of a field that is left out is what the field holds before it is set. -/
theorem Content.normal_of_isEmpty {f : Field} {c : Content} (hc : c.OfField schema f)
    (h : c.isEmpty = true) : c.normal = schema.initial f := by
  cases c with
  | absent => exact hc.symm
  | list ds => cases h
  | map es => cases h
  | single d =>
    obtain ⟨hsingular, hd⟩ := hc
    rw [Schema.initial, hsingular]
    show Content.single d.normal.dropSign = schema.zero f.kind
    cases d with
    | bool v =>
      rw [show f.kind = .bool from hd]
      cases v with
      | true => cases h
      | false => rfl
    | integer v =>
      obtain ⟨k, hk, -⟩ := hd
      have hv : v = 0 := beq_iff_eq.1 h
      rw [hk, hv]
      rfl
    | float32 x =>
      have hx : x.isZero = true := h
      rw [show f.kind = .float32 from hd, Datum.normal, Datum.dropSign, if_pos hx]
      rfl
    | float64 x =>
      have hx : x.isZero = true := h
      rw [show f.kind = .float64 from hd, Datum.normal, Datum.dropSign, if_pos hx]
      rfl
    | string s =>
      have hs : s = "" := String.isEmpty_iff.1 h
      rw [show f.kind = .string from hd, hs]
      rfl
    | bytes bs => cases h
    | message m => cases h
    | enumeration number =>
      obtain ⟨i, hk, hnumber⟩ := hd
      have hzero : number = 0 := beq_iff_eq.1 h
      subst hzero
      have hdefault : (((schema.enumType i).default?.map (·.number)).getD 0) = 0 := by
        rcases hnumber with hsome | ⟨hnone, -⟩
        · obtain ⟨v, hv⟩ := Option.isSome_iff_exists.1 hsome
          rw [EnumType.default?, hv, Option.some_or, Option.map_some, Option.getD_some,
            EnumType.number_of_ofNumber? hv]
        · rw [hnone]
          rfl
      rw [hk, Schema.zero, hdefault]
      rfl

/-! ## Nesting -/

mutual

/-- The messages that are nested in a value, at most. A list or a map around them counts as
`brackets` messages. -/
def Datum.nesting (brackets : Nat) : Datum → Nat
  | .message m => Message.nesting brackets m
  | .bool _ | .integer _ | .float32 _ | .float64 _ | .string _ | .bytes _ | .enumeration _ => 0

/-- The messages that are nested in the elements of a list, at most. -/
def elementsNesting (brackets : Nat) : List Datum → Nat
  | [] => 0
  | d :: ds => max (Datum.nesting brackets d) (elementsNesting brackets ds)

/-- The messages that are nested in the entries of a map, at most. -/
def entriesNesting (brackets : Nat) : List (MapKey × Datum) → Nat
  | [] => 0
  | (_, d) :: es => max (Datum.nesting brackets d) (entriesNesting brackets es)

/-- The messages that are nested in a field, at most. -/
def Content.nesting (brackets : Nat) : Content → Nat
  | .absent => 0
  | .single d => Datum.nesting brackets d
  | .list ds => brackets + elementsNesting brackets ds
  | .map es => brackets + entriesNesting brackets es

/-- The messages that are nested in plain fields, at most. -/
def plainNesting (brackets : Nat) : List Content → Nat
  | [] => 0
  | c :: cs => max (Content.nesting brackets c) (plainNesting brackets cs)

/-- The messages that are nested in oneofs, at most. -/
def choicesNesting (brackets : Nat) : List Choice → Nat
  | [] => 0
  | .unset :: cs => choicesNesting brackets cs
  | .member _ d :: cs => max (Datum.nesting brackets d) (choicesNesting brackets cs)

/-- The messages that are nested in a message, itself included. -/
def Message.nesting (brackets : Nat) : Message → Nat
  | .mk plain choices => 1 + max (plainNesting brackets plain) (choicesNesting brackets choices)

end

theorem elementsNesting_le {brackets n : Nat} {ds : List Datum}
    (h : ∀ d ∈ ds, d.nesting brackets ≤ n) : elementsNesting brackets ds ≤ n := by
  induction ds with
  | nil => exact Nat.zero_le n
  | cons d ds ih =>
    rw [elementsNesting]
    exact max_le (h d List.mem_cons_self) (ih fun d' hd' => h d' (List.mem_cons_of_mem d hd'))

theorem entriesNesting_le {brackets n : Nat} {es : List (MapKey × Datum)}
    (h : ∀ e ∈ es, e.2.nesting brackets ≤ n) : entriesNesting brackets es ≤ n := by
  induction es with
  | nil => exact Nat.zero_le n
  | cons e es ih =>
    rw [entriesNesting]
    exact max_le (h e List.mem_cons_self) (ih fun e' he' => h e' (List.mem_cons_of_mem e he'))

theorem plainNesting_le {brackets n : Nat} {cs : List Content} {fs : List Field}
    (hcs : PlainOfFields schema cs fs)
    (h : ∀ f ∈ fs, ∀ c : Content, c.OfField schema f → c.nesting brackets ≤ n) :
    plainNesting brackets cs ≤ n := by
  induction cs generalizing fs with
  | nil => exact Nat.zero_le n
  | cons c cs ih =>
    cases fs with
    | nil => cases hcs
    | cons f fs =>
      rw [plainNesting]
      apply max_le
      · exact h f List.mem_cons_self c hcs.1
      · exact ih hcs.2 fun f' hf' => h f' (List.mem_cons_of_mem f hf')

theorem choicesNesting_le {brackets n index : Nat} {type : MessageType} {cs : List Choice}
    (hcs : ChoicesOfType schema type cs index)
    (h : ∀ f ∈ type.fields, ∀ d : Datum, d.OfKind schema f.kind → d.nesting brackets ≤ n) :
    choicesNesting brackets cs ≤ n := by
  induction cs generalizing index with
  | nil => exact Nat.zero_le n
  | cons c cs ih =>
    cases c with
    | unset => exact ih hcs.2
    | member k d =>
      obtain ⟨f, hplace, hd⟩ := hcs.1
      rw [choicesNesting]
      exact max_le (h f (MessageType.of_members hplace).1 d hd) (ih hcs.2)

/-- A value of a kind is nested no more than the messages of the kind. -/
theorem Datum.nesting_le {brackets n : Nat} {kind : Kind} {d : Datum} (hd : d.OfKind schema kind)
    (h : ∀ i, kind = .message i → ∀ m : Message, m.OfType schema i → m.nesting brackets ≤ n) :
    d.nesting brackets ≤ n := by
  cases d with
  | message m =>
    obtain ⟨i, hkind, hm⟩ := hd
    exact h i hkind m hm
  | _ => exact Nat.zero_le n

/-- What a field that is no list and no map holds is nested as a message is, or not at all. -/
theorem Content.nesting_cases {f : Field} {c : Content} (hc : c.OfField schema f)
    (hf : f.cardinality = .singular) :
    (∀ brackets, c.nesting brackets = 0) ∨
      ∃ i m, f.kind = .message i ∧ c = .single (.message m) ∧ m.OfType schema i := by
  cases c with
  | absent => exact .inl fun _ => rfl
  | single d =>
    cases d with
    | message m =>
      obtain ⟨-, i, hkind, hm⟩ := hc
      exact .inr ⟨i, m, hkind, rfl, hm⟩
    | _ => exact .inl fun _ => rfl
  | list ds => cases hf.symm.trans hc.1
  | map es =>
    obtain ⟨k, hmap, -⟩ := hc
    cases hf.symm.trans hmap

/-- A message is nested at most one level and one pair of brackets more than the messages that its
fields hold. -/
theorem Message.nesting_le {brackets n index : Nat} {m : Message} (hm : m.OfType schema index)
    (h : ∀ f ∈ (schema.messageType index).fields, ∀ i, f.kind = .message i →
      ∀ m : Message, m.OfType schema i → m.nesting brackets ≤ n) :
    m.nesting brackets ≤ 1 + brackets + n := by
  have hdatum : ∀ f ∈ (schema.messageType index).fields, ∀ d : Datum, d.OfKind schema f.kind →
      d.nesting brackets ≤ n := fun f hf d hd => Datum.nesting_le hd (h f hf)
  -- A list or a map adds its own pair of brackets to what its values have.
  have hcontent : ∀ f ∈ (schema.messageType index).plainFields, ∀ c : Content,
      c.OfField schema f → c.nesting brackets ≤ brackets + n := by
    intro f hf c hc
    have hmem : f ∈ (schema.messageType index).fields := (List.mem_filter.1 hf).1
    cases c with
    | absent => exact Nat.zero_le _
    | single d => exact (hdatum f hmem d hc.2).trans (Nat.le_add_left n brackets)
    | list ds =>
      have hds := (elementsOfKind_iff f.kind ds).1 hc.2
      exact Nat.add_le_add_left (elementsNesting_le fun d hd => hdatum f hmem d (hds d hd)) _
    | map es =>
      obtain ⟨k, -, hes, -⟩ := hc
      have hes' := (entriesOfKind_iff k f.kind es).1 hes
      exact Nat.add_le_add_left
        (entriesNesting_le fun e he => hdatum f hmem e.2 (hes' e he).2) _
  cases m with
  | mk plain choices =>
    have hplain := plainNesting_le hm.1 hcontent
    have hchoices := choicesNesting_le hm.2 hdatum
    rw [Message.nesting]
    omega

/-- The levels of messages within messages. -/
def Message.levels (m : Message) : Nat := m.nesting 0

/-- The objects and arrays that are open at once when a message is read. -/
def Message.depth (m : Message) : Nat := m.nesting 1

end ProtoJson
