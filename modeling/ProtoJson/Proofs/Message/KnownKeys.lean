import Mathlib.Logic.Relation
import ProtoJson.Proofs.Message.Decoding
import ProtoJson.Proofs.Reader.Inversion

/-!
# Declared keys

Decoding passes the value of a key that no field has by other rules than it reads one that is
declared. `Call.KnowsKeys` says that it comes to no such key. That holds wherever the text ahead has
its separators and brackets in order and declares all its keys: each read of such a text leaves one
ahead of the reads that it makes.
-/

namespace ProtoJson

open Grammar

/-! ## Unknown keys -/

/-- The members of a message are read next, and the first has a key that no field has. -/
def Call.AtUnknownKey (schema : Schema) : Call → Prop
  | fields index _ st => st.reader.atSymbol (ascii '}') = false ∧
    ∃ key s, st.reader.string = (.ok key, s) ∧ (schema.messageType index).slot? key = none
  | _ => False

/-- No read that this one leads to comes to an unknown key. -/
def Call.KnowsKeys (schema : Schema) (c : Call) : Prop :=
  ∀ c', Relation.ReflTransGen (Makes schema) c c' → ¬ c'.AtUnknownKey schema

variable {schema : Schema}

theorem Call.KnowsKeys.makes {c c' : Call} (h : c.KnowsKeys schema) (hc : Makes schema c c') :
    c'.KnowsKeys schema := fun c'' hc'' => h c'' (.head hc hc'')

theorem Call.KnowsKeys.slot? {index : Nat} {m : Message} {st : Session} {key : String} {s : Reader}
    (h : (Call.fields index m st).KnowsKeys schema) (hat : st.reader.atSymbol (ascii '}') = false)
    (hkey : st.reader.string = (.ok key, s)) :
    ∃ slot, (schema.messageType index).slot? key = some slot := by
  cases hslot : (schema.messageType index).slot? key with
  | some slot => exact ⟨slot, rfl⟩
  | none => exact absurd ⟨hat, key, s, hkey, hslot⟩ (h _ .refl)

/-- Nothing is skipped in a text whose keys are all declared. -/
abbrev Schema.NoValue : TokenTree → Prop := fun _ => False

/-! ## Texts ahead -/

namespace Reader

/-- A value is ahead. -/
def ValueAhead (s : Reader) (p : TokenTree → Prop) : Prop :=
  ∃ (t : TokenTree) (r : List UInt8), s.Ahead (t.bytes ++ r) ∧ EndsRun r ∧ p t

/-- What is left of the items of an array is ahead. -/
def ItemsAhead (s : Reader) (p : Items NumberToken StringToken → Prop) : Prop :=
  ∃ (first : Bool) (items : Items NumberToken StringToken) (r : List UInt8),
    s.AtLoop first (items.bytes first ++ ascii ']' :: r) ∧ p items

/-- What is left of the members of an object is ahead. -/
def MembersAhead (s : Reader) (p : Members NumberToken StringToken → Prop) : Prop :=
  ∃ (first : Bool) (members : Members NumberToken StringToken) (r : List UInt8),
    s.AtLoop first (members.bytes first ++ ascii '}' :: r) ∧ p members

variable {s s' : Reader}

/-- The members of an object are ahead of its opening bracket. -/
theorem ValueAhead.members {p : TokenTree → Prop} {q : Members NumberToken StringToken → Prop}
    (h : s.ValueAhead p) (hq : ∀ pad members, p (.object pad members) → q members)
    (hs : s.symbol (ascii '{') = (.ok (), s')) : s'.options = s.options ∧ s'.MembersAhead q := by
  obtain ⟨t, r, hahead, hr, ht⟩ := h
  obtain ⟨hhead, rfl⟩ := symbol_tree (.inl rfl) t hahead hr hs
  cases t with
  | object pad members =>
    rw [Tree.tail_object]
    exact ⟨rfl, true, members, r, atLoop_open pad _ _, hq pad members ht⟩
  | _ => simp [Tree.head, ascii] at hhead

/-- The items of an array are ahead of its opening bracket. -/
theorem ValueAhead.items {p : TokenTree → Prop} {q : Items NumberToken StringToken → Prop}
    (h : s.ValueAhead p) (hq : ∀ pad items, p (.array pad items) → q items)
    (hs : s.symbol (ascii '[') = (.ok (), s')) : s'.options = s.options ∧ s'.ItemsAhead q := by
  obtain ⟨t, r, hahead, hr, ht⟩ := h
  obtain ⟨hhead, rfl⟩ := symbol_tree (.inr rfl) t hahead hr hs
  cases t with
  | array pad items =>
    rw [Tree.tail_array]
    exact ⟨rfl, true, items, r, atLoop_open pad _ _, hq pad items ht⟩
  | _ => simp [Tree.head, ascii] at hhead

/-- A loop that does not close has an item ahead, and the rest of them behind the next comma. -/
theorem ItemsAhead.item {p : Items NumberToken StringToken → Prop} (h : s.ItemsAhead p)
    (hat : s.atSymbol (ascii ']') = false) :
    ∃ v rest r, s.Ahead (v.bytes ++ r) ∧ EndsRun r ∧
      (s.goTo r s.depth).comma.ItemsAhead (· = rest) ∧
      ∃ before after, p (.cons before v after rest) := by
  obtain ⟨first, items, r, hloop, hp⟩ := h
  cases items with
  | nil =>
    obtain ⟨hclosed, -⟩ := hloop.close (.inr rfl) ()
    rw [hat] at hclosed
    cases hclosed
  | cons before v after rest =>
    rw [Items.bytes_cons_append] at hloop
    exact ⟨v, rest, _, hloop.ahead, (stopsItem_items rest (.inr rfl) r).endsRun.blanks after,
      ⟨false, rest, r, atLoop_comma after _ _, rfl⟩, before, after, hp⟩

/-- The next member of an object: its key is read where it stands, its value is ahead of the colon,
and the rest of the members behind the next comma. -/
structure AtMember (s : Reader) (key : StringToken) (v : TokenTree)
    (rest : Members NumberToken StringToken) (s₀ : Reader) (r : List UInt8) : Prop where
  string : Yields s.string (Quotation.text? s.options.decodeEscapes key) s₀
  mapKey : ∀ kind, Yields (s.mapKey kind) (Quotation.key? s.options.decodeEscapes kind key) s₀
  options : s₀.options = s.options
  value : s₀.colon.Ahead (v.bytes ++ r)
  ends : EndsRun r
  next : (s₀.colon.goTo r s₀.colon.depth).comma.MembersAhead (· = rest)

/-- A loop that does not close has a member ahead. -/
theorem MembersAhead.member {p : Members NumberToken StringToken → Prop} (h : s.MembersAhead p)
    (hat : s.atSymbol (ascii '}') = false) :
    ∃ key v rest s₀ r, s.AtMember key v rest s₀ r ∧
      ∃ before afterKey beforeValue after,
        p (.cons before key afterKey beforeValue v after rest) := by
  obtain ⟨first, members, r, hloop, hp⟩ := h
  cases members with
  | nil =>
    obtain ⟨hclosed, -⟩ := hloop.close (.inl rfl) ()
    rw [hat] at hclosed
    cases hclosed
  | cons before key afterKey beforeValue v after rest =>
    rw [Members.bytes_cons_append] at hloop
    obtain ⟨-, hstring, hmapKey⟩ := hloop.key
    exact ⟨key, v, rest, _, _,
      ⟨hstring, hmapKey, rfl, ahead_colon afterKey beforeValue _ _,
        (stopsItem_members rest (.inl rfl) r).endsRun.blanks after,
        false, rest, r, atLoop_comma after _ _, rfl⟩,
      before, afterKey, beforeValue, after, hp⟩

end Reader

/-! ## Reads of declared keys -/

/-- The text ahead of a read has its separators and brackets in order and all its keys declared. -/
def Call.KeysDeclared (schema : Schema) : Call → Prop
  | datum kind st =>
    st.reader.ValueAhead (·.DatumSkips Schema.NoValue schema st.reader.options kind)
  | message index _ st => ∀ s, st.reader.symbol (ascii '{') = (.ok (), s) →
    s.MembersAhead (·.Skip Schema.NoValue schema s.options index)
  | fields index _ st =>
    st.reader.MembersAhead (·.Skip Schema.NoValue schema st.reader.options index)
  | .slot _ target _ st =>
    st.reader.ValueAhead (·.Skips Schema.NoValue schema st.reader.options target)
  | elements kind _ st =>
    st.reader.ItemsAhead (·.Skip Schema.NoValue schema st.reader.options kind)
  | entries _ kind _ st =>
    st.reader.MembersAhead (·.PairsSkip Schema.NoValue schema st.reader.options kind)

namespace Schema

variable {st st' : Session} {r : List UInt8}

/-- A value that is read leaves the reader right behind it. -/
theorem reader_of_readDatum {kind : Kind} {t : TokenTree} {d : Datum}
    (h : st.reader.Ahead (t.bytes ++ r)) (hr : EndsRun r)
    (hskip : t.DatumSkips NoValue schema st.reader.options kind)
    (hread : schema.readDatum kind st = (.ok d, st')) :
    st'.reader = st.reader.goTo r st.reader.depth :=
  (readDatum_tree (fun _ h => False.elim h) t kind st r h hr hskip).reader hread

/-- A field that is read leaves the reader right behind its value. -/
theorem reader_of_readSlot {index : Nat} {slot : Slot} {t : TokenTree} {m m' : Message}
    (h : st.reader.Ahead (t.bytes ++ r)) (hr : EndsRun r)
    (hskip : t.Skips NoValue schema st.reader.options slot)
    (hread : schema.readSlot index slot m st = (.ok (), m', st')) :
    st'.reader = st.reader.goTo r st.reader.depth :=
  (readSlot_tree (fun _ h => False.elim h) t index slot m st r h hr hskip).reader hread

end Schema

namespace Call.KeysDeclared

variable {c c' : Call} {st : Session}

/-- A message that is read as a value is read from the same text. -/
theorem datum_makes {kind : Kind} (h : (Call.datum kind st).KeysDeclared schema)
    (hc : Makes schema (.datum kind st) c') : c'.KeysDeclared schema := by
  cases hc with
  | message =>
    intro s hs
    obtain ⟨hoptions, hmembers⟩ := h.members (fun _ _ hskip => hskip) hs
    rw [hoptions]
    exact hmembers

/-- No key of a member is skipped: its value and the members behind it are read. -/
theorem fields_makes {index : Nat} {m : Message}
    (h : (Call.fields index m st).KeysDeclared schema) (hc : Makes schema (.fields index m st) c') :
    c'.KeysDeclared schema := by
  cases hc with
  | passed hat hkey hslot =>
    obtain ⟨q, v, rest, s₀, r, hmember, _, _, _, _, hskip⟩ := h.member hat
    exact (hskip.unknown (hmember.string.of_ok hkey).1 hslot).elim
  | slot hat hkey hslot =>
    obtain ⟨q, v, rest, s₀, r, hmember, _, _, _, _, hskip⟩ := h.member hat
    obtain ⟨hname, rfl⟩ := hmember.string.of_ok hkey
    rw [← hmember.options] at hskip hname
    exact ⟨v, r, hmember.value, hmember.ends, hskip.known hname hslot⟩
  | next hat hkey hslot hread =>
    obtain ⟨q, v, rest, s₀, r, hmember, _, _, _, _, hskip⟩ := h.member hat
    obtain ⟨hname, rfl⟩ := hmember.string.of_ok hkey
    rw [← hmember.options] at hskip hname
    have hreader := Schema.reader_of_readSlot hmember.value hmember.ends
      (hskip.known hname hslot) hread
    -- Where the value has ended, the members behind it are ahead.
    obtain ⟨first, _, r', hloop, rfl⟩ := hmember.next
    rw [KeysDeclared, Session.reader_moveTo, hreader]
    exact ⟨first, _, r', hloop, hskip.tail⟩

/-- The value of a field is read as its cardinality says. -/
theorem slot_makes {index : Nat} {target : Slot} {m : Message}
    (h : (Call.slot index target m st).KeysDeclared schema)
    (hc : Makes schema (.slot index target m st) c') : c'.KeysDeclared schema := by
  cases hc with
  | member => exact h
  | singular hf =>
    obtain ⟨t, r, hahead, hr, hskip⟩ := h
    exact ⟨t, r, hahead, hr, (Slot.reads_singular hf).1 hskip⟩
  | @list _ _ f _ _ s hf hs =>
    obtain ⟨hoptions, hitems⟩ :=
      h.items (q := (·.Skip Schema.NoValue schema st.reader.options f.kind))
        (fun _ _ => (Slot.reads_list hf).1) hs
    rw [KeysDeclared, Session.reader_moveTo, hoptions]
    exact hitems
  | @map _ _ f _ _ _ s hf hs =>
    obtain ⟨hoptions, hmembers⟩ :=
      h.members (q := (·.PairsSkip Schema.NoValue schema st.reader.options f.kind))
        (fun _ _ => (Slot.reads_map hf).1) hs
    rw [KeysDeclared, Session.reader_moveTo, hoptions]
    exact hmembers

/-- An element is read, and the elements behind it. -/
theorem elements_makes {kind : Kind} {before : List Datum}
    (h : (Call.elements kind before st).KeysDeclared schema)
    (hc : Makes schema (.elements kind before st) c') : c'.KeysDeclared schema := by
  cases hc with
  | element hat =>
    obtain ⟨v, rest, r, hahead, hr, -, _, _, hskip⟩ := h.item hat
    exact ⟨v, r, hahead, hr, hskip.1⟩
  | elements hat hread =>
    obtain ⟨v, rest, r, hahead, hr, hnext, _, _, hskip⟩ := h.item hat
    have hreader := Schema.reader_of_readDatum hahead hr hskip.1 hread
    obtain ⟨first, _, r', hloop, rfl⟩ := hnext
    rw [KeysDeclared, Session.reader_moveTo, hreader]
    exact ⟨first, _, r', hloop, hskip.2⟩

/-- The value of an entry is read, and the entries behind it. -/
theorem entries_makes {keyKind : KeyKind} {kind : Kind} {before : List (MapKey × Datum)}
    (h : (Call.entries keyKind kind before st).KeysDeclared schema)
    (hc : Makes schema (.entries keyKind kind before st) c') : c'.KeysDeclared schema := by
  cases hc with
  | entry hat hkey =>
    obtain ⟨q, v, rest, s₀, r, hmember, _, _, _, _, hskip⟩ := h.member hat
    obtain ⟨-, rfl⟩ := (hmember.mapKey keyKind).of_ok hkey
    rw [← hmember.options] at hskip
    exact ⟨v, r, hmember.value, hmember.ends, hskip.1⟩
  | entries hat hkey hread =>
    obtain ⟨q, v, rest, s₀, r, hmember, _, _, _, _, hskip⟩ := h.member hat
    obtain ⟨-, rfl⟩ := (hmember.mapKey keyKind).of_ok hkey
    rw [← hmember.options] at hskip
    have hreader := Schema.reader_of_readDatum hmember.value hmember.ends hskip.1 hread
    obtain ⟨first, _, r', hloop, rfl⟩ := hmember.next
    rw [KeysDeclared, hreader]
    exact ⟨first, _, r', hloop, hskip.2⟩

/-- What a read makes of such a text is again ahead of such a text. -/
theorem makes (h : c.KeysDeclared schema) (hc : Makes schema c c') : c'.KeysDeclared schema := by
  cases c with
  | datum kind st => exact h.datum_makes hc
  | message index m st =>
    cases hc with
    | fields hs => exact h _ hs
  | fields index m st => exact h.fields_makes hc
  | slot index target m st => exact h.slot_makes hc
  | elements kind before st => exact h.elements_makes hc
  | entries keyKind kind before st => exact h.entries_makes hc

theorem not_atUnknownKey (h : c.KeysDeclared schema) : ¬ c.AtUnknownKey schema := by
  cases c with
  | fields index m st =>
    rintro ⟨hat, name, s, hkey, hslot⟩
    obtain ⟨q, v, rest, s₀, r, hmember, _, _, _, _, hskip⟩ := h.member hat
    exact hskip.unknown (hmember.string.of_ok hkey).1 hslot
  | _ => exact id

/-- In front of a text whose keys are all declared, no read comes to an unknown key. -/
theorem knowsKeys (h : c.KeysDeclared schema) : c.KnowsKeys schema := by
  intro c' hreach
  -- The property is carried along the reads from `c` to `c'`.
  have hdeclared : c'.KeysDeclared schema := by
    induction hreach with
    | refl => exact h
    | tail _ hc ih => exact ih.makes hc
  exact hdeclared.not_atUnknownKey

end Call.KeysDeclared

end ProtoJson
