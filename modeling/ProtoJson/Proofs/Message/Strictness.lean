import ProtoJson.Proofs.Message.KnownKeys
import ProtoJson.Proofs.Message.Rounds

/-!
# Deferred separators accept the strict grammar

The decoder never takes a separator where the grammar has it: it announces one, and the next scan
must find it. Where decoding comes to no unknown key, this accepts exactly the objects whose
separators and brackets are in order, whose keys are declared and whose values convert. Behind every
successful run stands a tree whose text the run has passed.
-/

namespace ProtoJson

open Grammar

variable {schema : Schema}

/-! ## Passed texts -/

namespace Schema

open Reader

/-- The first reader has the text of a value in front of it, with all its keys declared, and the
second stands right after that. -/
def Passes (s s' : Reader) (p : TokenTree → Prop) : Prop :=
  ∃ t : TokenTree, s.Ahead (t.bytes ++ s'.rest) ∧ p t ∧ Reader.Moved s s' s.depth

variable {st st' : Session}

/-- A read of one token passes it. -/
theorem passes_scalar {α β : Type} {c : TokenClass} {accept : TokenKind → Option α}
    {f : Token × α → Except SyntaxError β} {g : β → Datum} {d : Datum}
    (hsym : ∀ b, accept (.symbol b) = none) (ht : st.reader.token = none)
    (h : st.take (Reader.andThen (st.reader.expect c accept) f) g = (.ok d, st'))
    {p : TokenTree → Prop} (hp : ∀ t, p t) : Passes st.reader st'.reader p := by
  obtain ⟨b, hb⟩ := of_take h
  obtain ⟨t, hahead, hgo, -⟩ := Reader.andThen_expect_inv hsym ht hb
  exact ⟨t, hahead, hp t, hahead.moved _ hgo⟩

/-- A reader in a loop over items: a comma is announced in front of all but the first. -/
structure InLoop (s : Reader) (first : Bool) : Prop where
  token : s.token = none
  pending : s.pending = if first then none else some (ascii ',')

theorem inLoop_open {s s' : Reader} {d : Nat} (h : Reader.Moved s s' d) : InLoop s' true :=
  ⟨h.token, h.pending⟩

theorem inLoop_comma {s s' : Reader} {d : Nat} (h : Reader.Moved s s' d) :
    InLoop s'.comma false := ⟨h.token, rfl⟩

/-- A loop that closes at once. -/
theorem InLoop.close {s s' : Reader} {first : Bool} {α : Type} {c : UInt8} {content a : α}
    (h : InLoop s first) (hc : Reader.IsCloser c) (hat : s.atSymbol c = true)
    (hclose : s.close c content = (.ok a, s')) :
    s.AtLoop first (c :: s'.rest) ∧ Reader.Moved s s' (s.depth - 1) := by
  obtain ⟨pad, r, hrest⟩ := Reader.atSymbol_inv h.token hat
  have hloop : s.AtLoop first (c :: r) := ⟨h.token, h.pending, pad, hrest⟩
  have heq := (hloop.close hc content).2
  rw [hclose] at heq
  cases heq
  exact ⟨hloop, by simp [hrest]; omega, rfl⟩

/-- An opening bracket is passed. -/
theorem moved_symbol {s s' : Reader} {b : UInt8} (hb : b = ascii '{' ∨ b = ascii '[')
    (ht : s.token = none) (hs : s.symbol b = (.ok (), s')) : Moved s s' (s.depth + 1) := by
  obtain ⟨hahead, hgo⟩ := Reader.symbol_inv hb ht hs
  exact Ahead.moved [b] hahead hgo

/-- An opening bracket and a loop that is passed up to its closing bracket stand in the text
together. -/
theorem ahead_container {s s₁ s' : Reader} {b c : UInt8} {body : List UInt8}
    (hb : b = ascii '{' ∨ b = ascii '[') (ht : s.token = none) (hs : s.symbol b = (.ok (), s₁))
    (hloop : s₁.AtLoop true (body ++ c :: s'.rest)) (hmoved : Moved s₁ s' (s₁.depth - 1)) :
    ∃ pad : Blanks, s.Ahead (b :: (pad.bytes ++ body ++ [c]) ++ s'.rest) ∧ Moved s s' s.depth := by
  have hopen := moved_symbol hb ht hs
  obtain ⟨hahead, -⟩ := Reader.symbol_inv hb ht hs
  obtain ⟨pad, hrest⟩ := hloop.rest
  rw [hrest] at hahead
  rw [hopen.depth, Nat.add_sub_cancel] at hmoved
  exact ⟨pad, by simpa using hahead, hopen.trans hmoved⟩

/-- A key, a value behind a colon and the members behind a comma stand in the text together. -/
theorem InLoop.member {s s₁ s₂ s' : Reader} {first : Bool} {q : StringToken} {t : TokenTree}
    {members : Members NumberToken StringToken} (hin : InLoop s first)
    (hkey : s.Ahead (Quotation.bytes q ++ s₁.rest)) (hmoved : Moved s s₁ s.depth)
    (hvalue : s₁.colon.Ahead (t.bytes ++ s₂.rest)) (hmoved₁ : Moved s₁.colon s₂ s₁.colon.depth)
    (hloop : s₂.comma.AtLoop false (members.bytes false ++ ascii '}' :: s'.rest))
    (hmoved₂ : Moved s₂.comma s' (s₂.comma.depth - 1)) :
    ∃ blanks v w pad : Blanks,
      s.AtLoop first ((Members.cons blanks q v w t pad members).bytes first
        ++ ascii '}' :: s'.rest) ∧ Moved s s' (s.depth - 1) := by
  rw [moved_colon, depth_colon, hmoved.depth] at hmoved₁
  rw [moved_comma, depth_comma, hmoved₁.depth] at hmoved₂
  obtain ⟨blanks, hblanks⟩ := hkey.atLoop hin.pending
  obtain ⟨v, w, hcolon⟩ := hvalue.of_colon
  obtain ⟨pad, hpad⟩ := hloop.rest
  refine ⟨blanks, v, w, pad, ?_, (hmoved.trans hmoved₁).trans hmoved₂⟩
  rw [Members.bytes_cons_append]
  rw [hcolon, show s₂.rest = _ from hpad] at hblanks
  exact hblanks

end Schema

/-! ## Runs -/

/-- If the read of a call succeeds, it has passed a tree of the text, or what is left of one, in
which all keys are declared. -/
def Call.Passes (schema : Schema) : Call → Prop
  | datum kind st => ∀ d st', st.reader.token = none → schema.readDatum kind st = (.ok d, st') →
    Schema.Passes st.reader st'.reader
      (·.DatumSkips Schema.NoValue schema st.reader.options kind)
  | message index m st => ∀ m' st', st.reader.token = none →
    schema.readMessage index m st = (.ok (), m', st') →
    ∃ (pad : Blanks) (members : Members NumberToken StringToken),
      st.reader.Ahead ((Tree.object pad members).bytes ++ st'.reader.rest) ∧
        members.Skip Schema.NoValue schema st.reader.options index ∧
        Reader.Moved st.reader st'.reader st.reader.depth
  | fields index m st => ∀ first m' st', Schema.InLoop st.reader first →
    schema.readFields index m st = (.ok (), m', st') →
    ∃ members : Members NumberToken StringToken,
      st.reader.AtLoop first (members.bytes first ++ ascii '}' :: st'.reader.rest) ∧
        members.Skip Schema.NoValue schema st.reader.options index ∧
        Reader.Moved st.reader st'.reader (st.reader.depth - 1)
  | .slot index target m st => ∀ m' st', st.reader.token = none →
    schema.readSlot index target m st = (.ok (), m', st') →
    Schema.Passes st.reader st'.reader (·.Skips Schema.NoValue schema st.reader.options target)
  | elements kind before st => ∀ first ds st', Schema.InLoop st.reader first →
    schema.readElements kind before st = (.ok ds, st') →
    ∃ items : Items NumberToken StringToken,
      st.reader.AtLoop first (items.bytes first ++ ascii ']' :: st'.reader.rest) ∧
        items.Skip Schema.NoValue schema st.reader.options kind ∧
        Reader.Moved st.reader st'.reader (st.reader.depth - 1)
  | entries keyKind kind before st => ∀ first es st', Schema.InLoop st.reader first →
    schema.readEntries keyKind kind before st = (.ok es, st') →
    ∃ members : Members NumberToken StringToken,
      st.reader.AtLoop first (members.bytes first ++ ascii '}' :: st'.reader.rest) ∧
        members.PairsSkip Schema.NoValue schema st.reader.options kind ∧
        Reader.Moved st.reader st'.reader (st.reader.depth - 1)

namespace Schema

open Reader

variable {st : Session}

/-- A value that is read stands in the text. -/
theorem readDatum_passes (kind : Kind)
    (hin : ∀ c', Call.Makes schema (.datum kind st) c' → c'.Passes schema) :
    (Call.datum kind st).Passes schema := by
  intro d st' ht h
  cases kind with
  | bool =>
    rw [readDatum_bool] at h
    exact passes_scalar (fun _ => rfl) ht h (by simp [Tree.DatumSkips])
  | integer k =>
    rw [readDatum_integer] at h
    exact passes_scalar (fun _ => rfl) ht h (by simp [Tree.DatumSkips])
  | float32 =>
    rw [readDatum_float32] at h
    exact passes_scalar (fun _ => rfl) ht h (by simp [Tree.DatumSkips])
  | float64 =>
    rw [readDatum_float64] at h
    exact passes_scalar (fun _ => rfl) ht h (by simp [Tree.DatumSkips])
  | string =>
    rw [readDatum_string] at h
    exact passes_scalar (fun _ => rfl) ht h (by simp [Tree.DatumSkips])
  | bytes =>
    rw [readDatum_bytes] at h
    exact passes_scalar (fun _ => rfl) ht h (by simp [Tree.DatumSkips])
  | enumeration i =>
    rw [readDatum_enumeration] at h
    rcases hr : st.reader.enumeration (schema.enumType i) with ⟨e | v, s⟩ <;> rw [hr] at h
    · cases h
    · cases h
      obtain ⟨t, hahead, hgo⟩ := Reader.enumeration_inv ht hr
      exact ⟨t, hahead, by simp [Tree.DatumSkips], hahead.moved _ hgo⟩
  | message i =>
    rw [readDatum_message] at h
    dsimp only at h
    split at h
    · cases h
    · next m st₁ hread =>
      cases h
      obtain ⟨pad, members, hahead, hskip, hmoved⟩ := hin _ .message _ _ ht hread
      exact ⟨.object pad members, hahead, hskip, hmoved⟩

theorem readMessage_passes (index : Nat) (m : Message)
    (hin : ∀ c', Call.Makes schema (.message index m st) c' → c'.Passes schema) :
    (Call.message index m st).Passes schema := by
  intro m' st' ht h
  obtain ⟨s, hs, hfields⟩ := of_readMessage h
  have hopen := moved_symbol (.inl rfl) ht hs
  obtain ⟨members, hloop, hskip, hmoved⟩ := hin _ (.fields hs) true _ _ (inLoop_open hopen) hfields
  obtain ⟨pad, hahead, hend⟩ := ahead_container (.inl rfl) ht hs hloop hmoved
  rw [Session.reader_moveTo, hopen.options] at hskip
  exact ⟨pad, members, hahead, hskip, hend⟩

/-- The members that are read stand in the text, each with a declared key, a colon and a value, and
with commas between them. -/
theorem readFields_passes (index : Nat) (m : Message)
    (hn : (Call.fields index m st).KnowsKeys schema)
    (hin : ∀ c', Call.Makes schema (.fields index m st) c' → c'.Passes schema) :
    (Call.fields index m st).Passes schema := by
  intro first m' st' hloop h
  cases readFields_ok_iff.1 h with
  | closed hat hclose =>
    obtain ⟨hclosed, hmoved⟩ := hloop.close (.inl rfl) hat hclose
    exact ⟨.nil, hclosed, trivial, hmoved⟩
  | passed hat hs hunknown =>
    -- The run comes to no unknown key.
    obtain ⟨slot, hslot⟩ := hn.slot? hat hs
    rw [hslot] at hunknown
    cases hunknown
  | @stored key s slot m₁ _ st₁ _ hat hs hslot hread hrest =>
    obtain ⟨q, hkey, hgo, hname⟩ := Reader.string_inv hloop.token hs
    have hmoved := hkey.moved _ hgo
    obtain ⟨t, hvalue, hskip, hmoved₁⟩ :=
      hin _ (.slot hat hs hslot) m₁ st₁ hmoved.token hread
    obtain ⟨members, hmembers, hskip', hmoved₂⟩ :=
      hin _ (.next hat hs hslot hread) false m' st' (inLoop_comma hmoved₁) hrest
    obtain ⟨blanks, v, w, pad, hall, hend⟩ :=
      hloop.member hkey hmoved hvalue hmoved₁ hmembers hmoved₂
    rw [Session.reader_moveTo, options_comma, hmoved₁.options, Session.reader_moveTo,
      options_colon, hmoved.options] at hskip'
    rw [Session.reader_moveTo, options_colon, hmoved.options] at hskip
    exact ⟨.cons blanks q v w t pad members, hall, Members.skip_known hname hslot hskip hskip',
      hend⟩

/-- The value of a field that is read stands in the text. -/
theorem readSlot_passes (index : Nat) (target : Slot) (m : Message)
    (hin : ∀ c', Call.Makes schema (.slot index target m st) c' → c'.Passes schema) :
    (Call.slot index target m st).Passes schema := by
  intro m' st' ht h
  cases target with
  | member j k f =>
    rw [readSlot_member_eq] at h
    obtain ⟨d, st₁, hread, hreader⟩ := of_store h
    rw [← hreader]
    exact hin _ .member d st₁ ht hread
  | plain i f =>
    cases hf : f.cardinality with
    | singular =>
      simp only [Tree.Skips, Slot.reads_singular hf]
      rw [readSlot_singular_eq index i f hf] at h
      obtain ⟨d, st₁, hread, hreader⟩ := of_store h
      rw [← hreader]
      exact hin _ (.singular hf) d st₁ ht hread
    | list =>
      simp only [Tree.Skips, Slot.reads_list hf]
      rw [readSlot_list_eq index i f hf] at h
      obtain ⟨ds, st₁, hread, hreader⟩ := of_store h
      obtain ⟨s, hs, helements⟩ := of_readList hread
      have hopen := moved_symbol (.inr rfl) ht hs
      obtain ⟨items, hloop, hskip, hmoved⟩ :=
        hin _ (.list hf hs) true ds st₁ (inLoop_open hopen) helements
      obtain ⟨pad, hahead, hend⟩ := ahead_container (.inr rfl) ht hs hloop hmoved
      rw [Session.reader_moveTo, hopen.options] at hskip
      exact hreader ▸ ⟨.array pad items, hahead, hskip, hend⟩
    | map keyKind =>
      simp only [Tree.Skips, Slot.reads_map hf]
      rw [readSlot_map_eq index i f keyKind hf] at h
      obtain ⟨es, st₁, hread, hreader⟩ := of_store h
      obtain ⟨s, hs, hentries⟩ := of_readMap hread
      have hopen := moved_symbol (.inl rfl) ht hs
      obtain ⟨members, hloop, hskip, hmoved⟩ :=
        hin _ (.map hf hs) true es st₁ (inLoop_open hopen) hentries
      obtain ⟨pad, hahead, hend⟩ := ahead_container (.inl rfl) ht hs hloop hmoved
      rw [Session.reader_moveTo, hopen.options] at hskip
      exact hreader ▸ ⟨.object pad members, hahead, hskip, hend⟩

/-- The elements that are read stand in the text, with commas between them. -/
theorem readElements_passes (kind : Kind) (before : List Datum)
    (hin : ∀ c', Call.Makes schema (.elements kind before st) c' → c'.Passes schema) :
    (Call.elements kind before st).Passes schema := by
  intro first ds st' hloop h
  cases readElements_ok_iff.1 h with
  | closed hat hclose =>
    obtain ⟨hclosed, hmoved⟩ := hloop.close (.inr rfl) hat hclose
    exact ⟨.nil, hclosed, trivial, hmoved⟩
  | @element d st₁ _ _ hat hread hrest =>
    obtain ⟨t, hvalue, hskip, hmoved⟩ := hin _ (.element hat) d st₁ hloop.token hread
    obtain ⟨items, hitems, hskip', hmoved'⟩ :=
      hin _ (.elements hat hread) false ds st' (inLoop_comma hmoved) hrest
    rw [Session.reader_moveTo, moved_comma, depth_comma, hmoved.depth] at hmoved'
    rw [Session.reader_moveTo, options_comma, hmoved.options] at hskip'
    obtain ⟨blanks, hblanks⟩ := hvalue.atLoop hloop.pending
    obtain ⟨pad, hpad⟩ := hitems.rest
    refine ⟨.cons blanks t pad items, ?_, ⟨hskip, hskip'⟩, hmoved.trans hmoved'⟩
    rw [Items.bytes_cons_append]
    rw [show st₁.reader.rest = _ from hpad] at hblanks
    exact hblanks

/-- The entries that are read stand in the text, each with a key, a colon and a value, and with
commas between them. -/
theorem readEntries_passes (keyKind : KeyKind) (kind : Kind) (before : List (MapKey × Datum))
    (hin : ∀ c', Call.Makes schema (.entries keyKind kind before st) c' → c'.Passes schema) :
    (Call.entries keyKind kind before st).Passes schema := by
  intro first es st' hloop h
  cases readEntries_ok_iff.1 h with
  | closed hat hclose =>
    obtain ⟨hclosed, hmoved⟩ := hloop.close (.inl rfl) hat hclose
    exact ⟨.nil, hclosed, trivial, hmoved⟩
  | @entry key s d st₁ _ _ hat hs hread hrest =>
    obtain ⟨q, hkey, hgo⟩ := Reader.mapKey_inv hloop.token hs
    have hmoved := hkey.moved _ hgo
    obtain ⟨t, hvalue, hskip, hmoved₁⟩ := hin _ (.entry hat hs) d st₁ hmoved.token hread
    obtain ⟨members, hmembers, hskip', hmoved₂⟩ :=
      hin _ (.entries hat hs hread) false es st' (inLoop_comma hmoved₁) hrest
    obtain ⟨blanks, v, w, pad, hall, hend⟩ :=
      hloop.member hkey hmoved hvalue hmoved₁ hmembers hmoved₂
    rw [options_comma, hmoved₁.options, Session.reader_moveTo, options_colon, hmoved.options]
      at hskip'
    rw [Session.reader_moveTo, options_colon, hmoved.options] at hskip
    exact ⟨.cons blanks q v w t pad members, hall, ⟨hskip, hskip'⟩, hend⟩

end Schema

/-- Where decoding comes to no unknown key, every read that succeeds has passed a tree of the text,
or what is left of one. -/
theorem Call.passes (c : Call) (hn : c.KnowsKeys schema) : c.Passes schema := by
  induction c using Call.induction schema with
  | h c ih =>
    have hin : ∀ c', Makes schema c c' → c'.Passes schema := fun c' hc' => ih c' hc' (hn.makes hc')
    cases c with
    | datum kind st => exact Schema.readDatum_passes kind hin
    | message index m st => exact Schema.readMessage_passes index m hin
    | fields index m st => exact Schema.readFields_passes index m hn hin
    | slot index target m st => exact Schema.readSlot_passes index target m hin
    | elements kind before st => exact Schema.readElements_passes kind before hin
    | entries keyKind kind before st => exact Schema.readEntries_passes keyKind kind before hin

namespace Schema

open Reader

/-! ## The strict grammar -/

/-- A text of blanks and an object, whose separators and brackets are in order, whose keys are
declared, the keys within it included, and whose members convert. -/
def IsStrictObject (schema : Schema) (options : ReadOptions) (index : Nat) (text : List UInt8) :
    Prop :=
  ∃ (lead pad : Blanks) (members : Members NumberToken StringToken),
    text = lead.bytes ++ (Tree.object pad members).bytes ∧
      members.Skip NoValue schema options index ∧
      (members.assignments schema options 1 index).all Option.isSome = true

/-- A strict object at the front of the input is decoded, and the reader stops right after it. -/
theorem unmarshal_of_strict {index : Nat} {options : ReadOptions} {text : List UInt8}
    (h : IsStrictObject schema options index text) (m : Message) (ps : Pools) (rest : List UInt8) :
    ∃ m' st', schema.unmarshal index (text ++ rest) options m ps = (.ok (), m', st') ∧
      st'.reader.rest = rest ∧ st'.reader.offset = text.length := by
  obtain ⟨lead, pad, members, rfl, hskip, hall⟩ := h
  have hfold := unmarshal_object schema (fun _ h => False.elim h) index options m ps lead
    pad members rest hskip
  generalize schema.unmarshal index _ options m ps = res at hfold ⊢
  obtain ⟨res, m', st'⟩ := res
  have hok : res = .ok () := hfold.ok_iff.2 hall
  refine ⟨m', st', by rw [hok], ?_⟩
  rw [show st'.reader = _ from hfold.reader hok]
  exact ⟨rfl, rfl⟩

/-- Decoding a strict object comes to no unknown key. -/
theorem IsStrictObject.knowsKeys {index : Nat} {options : ReadOptions} {text : List UInt8}
    (h : IsStrictObject schema options index text) (m : Message) (ps : Pools) (rest : List UInt8) :
    (Call.message index m ⟨ps, .ofBytes (text ++ rest) options⟩).KnowsKeys schema := by
  obtain ⟨lead, pad, members, rfl, hskip, -⟩ := h
  have hahead : (ofBytes (lead.bytes ++ (Tree.object pad members).bytes ++ rest) options).Ahead
      ((Tree.object pad members).bytes ++ rest) :=
    ⟨rfl, lead.bytes, .free lead, List.append_assoc ..⟩
  have hopen := symbol_open (.inl rfl) (.object pad members) rfl hahead
  rw [Tree.tail_object] at hopen
  apply Call.KeysDeclared.knowsKeys
  intro s hs
  obtain ⟨-, rfl⟩ := hopen.of_ok hs
  exact ⟨true, members, rest, atLoop_open pad _ _, hskip⟩

/-- Where decoding comes to no unknown key, it succeeds exactly if a front of the input is a strict
object, and then the reader stops right after that. -/
theorem unmarshal_iff_strict {index : Nat} {input : List UInt8} {options : ReadOptions}
    {m : Message} {ps : Pools}
    (hn : (Call.message index m ⟨ps, .ofBytes input options⟩).KnowsKeys schema) :
    ((∃ m' st', schema.unmarshal index input options m ps = (.ok (), m', st')) ↔
      ∃ text rest, input = text ++ rest ∧ IsStrictObject schema options index text) ∧
    ∀ text rest, input = text ++ rest → IsStrictObject schema options index text →
      ∃ m' st', schema.unmarshal index input options m ps = (.ok (), m', st') ∧
        st'.reader.rest = rest ∧ st'.reader.offset = text.length := by
  refine ⟨⟨?_, ?_⟩, ?_⟩
  · rintro ⟨m', st', hok⟩
    obtain ⟨pad, members, hahead, hskip, -⟩ := Call.passes _ hn m' st' rfl hok
    obtain ⟨g, hgap, hrest⟩ := hahead.gap
    have hpending : (Reader.ofBytes input options).pending = none := rfl
    rw [hpending] at hgap
    cases hgap with
    | free lead =>
      have hinput : input = lead.bytes ++ (Tree.object pad members).bytes ++ st'.reader.rest := by
        rw [List.append_assoc]
        exact hrest
      refine ⟨_, _, hinput, lead, pad, members, rfl, hskip, ?_⟩
      have hfold := unmarshal_object schema (fun _ h => False.elim h) index options m ps lead
        pad members st'.reader.rest hskip
      rw [← hinput, hok] at hfold
      exact hfold.ok_iff.1 rfl
  · rintro ⟨text, rest, rfl, hstrict⟩
    obtain ⟨m', st', hok, -⟩ := unmarshal_of_strict hstrict m ps rest
    exact ⟨m', st', hok⟩
  · rintro text rest rfl hstrict
    exact unmarshal_of_strict hstrict m ps rest

/-- A member without blanks. -/
def bareMember (key : StringToken) (v : TokenTree) (rest : Members NumberToken StringToken) :
    Members NumberToken StringToken := .cons .empty key .empty .empty v .empty rest

theorem skip_bareMember {options : ReadOptions} {index : Nat} {key : StringToken} {v : TokenTree}
    {rest : Members NumberToken StringToken} {name : String} {slot : Slot}
    (hkey : Quotation.text? options.decodeEscapes key = some name)
    (hslot : (schema.messageType index).slot? name = some slot)
    (hv : v.Skips NoValue schema options slot) (hrest : rest.Skip NoValue schema options index) :
    (bareMember key v rest).Skip NoValue schema options index :=
  Members.skip_known hkey hslot hv hrest

/-- The entries of a map of messages. -/
def exampleEntries : Members NumberToken StringToken :=
  bareMember ⟨Utf8.ofString "1", by decide +kernel⟩ (.object .empty
    (bareMember ⟨Utf8.ofString "bol", by decide +kernel⟩ (.bool false) .nil)) <|
  bareMember ⟨Utf8.ofString "2", by decide +kernel⟩ (.object .empty .nil) .nil

/-- Members of the example message: a scalar, a list of two elements and a map of two entries. -/
def exampleMembers : Members NumberToken StringToken :=
  bareMember ⟨Utf8.ofString "bol", by decide +kernel⟩ (.bool true) <|
  bareMember ⟨Utf8.ofString "strArr", by decide +kernel⟩ (.array .empty
    (.cons .empty (.string ⟨Utf8.ofString "a", by decide +kernel⟩) .empty <|
      .cons .empty (.string ⟨Utf8.ofString "b", by decide +kernel⟩) .empty .nil)) <|
  bareMember ⟨Utf8.ofString "msgMap", by decide +kernel⟩ (.object .empty exampleEntries) .nil

/-- The text of that message. -/
def exampleText : List UInt8 :=
  Utf8.ofString "\x7b\"bol\":true,\"strArr\":[\"a\",\"b\"]," ++
    Utf8.ofString "\"msgMap\":\x7b\"1\":\x7b\"bol\":false\x7d,\"2\":\x7b\x7d\x7d\x7d"

theorem isStrictObject_exampleText : IsStrictObject Example.schema {} 1 exampleText := by
  refine ⟨.empty, .empty, exampleMembers, by decide +kernel, ?_, by decide +kernel⟩
  have hbol : ∀ i ∈ [0, 1], (Example.schema.messageType i).slot? "bol"
      = some (.plain 0 (Example.singular "bol" "bol" .bool)) := by decide
  have hlist : (Example.schema.messageType 1).slot? "strArr"
      = some (.plain 13 ⟨"str_arr", "strArr", .string, .list, none⟩) := by decide
  have hmap : (Example.schema.messageType 1).slot? "msgMap"
      = some (.plain 17 ⟨"msg_map", "msgMap", .message 0, .map (.integer .int32), none⟩) := by
    decide
  have hentry : (bareMember ⟨Utf8.ofString "bol", by decide⟩ (.bool false) .nil).Skip NoValue
      Example.schema {} 0 :=
    skip_bareMember (by decide +kernel) (hbol 0 (by decide)) trivial trivial
  have hentries : exampleEntries.PairsSkip NoValue Example.schema {} (.message 0) :=
    ⟨hentry, trivial, trivial⟩
  refine skip_bareMember (by decide +kernel) (hbol 1 (by decide)) trivial ?_
  refine skip_bareMember (by decide +kernel) hlist ⟨trivial, trivial, trivial⟩ ?_
  exact skip_bareMember (by decide +kernel) hmap hentries trivial

/-- An object with a list and a map is strict, and decoding stops right after it, in front of what
else there is. -/
theorem unmarshal_iff_strict_example :
    (Call.message 1 (Example.schema.emptyMessage 1)
        ⟨.ofSchema Example.schema, .ofBytes (exampleText ++ [ascii ',']) {}⟩).KnowsKeys
      Example.schema ∧
    ∃ m' st', Example.schema.unmarshal 1 (exampleText ++ [ascii ',']) {}
        (Example.schema.emptyMessage 1) (.ofSchema Example.schema) = (.ok (), m', st') ∧
      st'.reader.rest = [ascii ','] ∧ st'.reader.offset = 67 := by
  have hstrict := isStrictObject_exampleText
  have hn := hstrict.knowsKeys (Example.schema.emptyMessage 1) (.ofSchema Example.schema)
    [ascii ',']
  obtain ⟨m', st', hok, hrest, hoffset⟩ := (unmarshal_iff_strict hn).2 _ _ rfl hstrict
  exact ⟨hn, m', st', hok, hrest, hoffset.trans (by decide +kernel)⟩

end Schema

end ProtoJson
