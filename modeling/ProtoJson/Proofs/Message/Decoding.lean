import Mathlib.Tactic.Set
import ProtoJson.Proofs.Message.Conversion
import ProtoJson.Proofs.Message.Pools
import ProtoJson.Proofs.Reader.Fallback
import ProtoJson.Schema.Example

/-!
# Decoding as a fold

On the text of an object the decoder does what the tree of the text means: it makes the assignments
of the members in order, up to the first that fails. `Session.Yields` and `Assigns` say what a read
of the decoder comes to, and the lemmas follow the grammar of the text.
-/

namespace ProtoJson

open Grammar

/-! ## Outcomes -/

/-- A read that gives `o` and leaves the reader at `s'`, or fails if `o` is `none`. What it gives is
exactly that if the pools are `clean`. -/
def Session.Yields {α : Type} (clean : Prop) (res : Except ReadError α × Session) (o : Option α)
    (s' : Reader) : Prop :=
  match o with
  | some a => ∃ a' ps, res = (.ok a', ⟨ps, s'⟩) ∧ (clean → a' = a)
  | none => ∃ e st', res = (.error e, st')

/-- A read of the value of a field that makes the assignment `o` and leaves the reader at `s'`, or
fails and leaves the message as it is. -/
def AssignsOne (clean : Prop) (res : Except ReadError Unit × Message × Session)
    (o : Option Assignment) (m : Message) (s' : Reader) : Prop :=
  match o with
  | some a => ∃ m' ps, res = (.ok (), m', ⟨ps, s'⟩) ∧ (clean → m' = a.put m)
  | none => ∃ e st', res = (.error e, m, st')

/-- A read of members that makes the assignments in front of the first failure. If there is none,
the reader is left at `s'`. -/
def Assigns (clean : Prop) (res : Except ReadError Unit × Message × Session)
    (as : List (Option Assignment)) (m : Message) (s' : Reader) : Prop :=
  (clean → res.2.1 = assignAll as m) ∧
    if as.all Option.isSome then res.1 = .ok () ∧ res.2.2.reader = s' else ∃ e, res.1 = .error e

variable {ν σ : Type} [Numeral ν] [Quotation σ] {schema : Schema} {st : Session} {r : List UInt8}

/-- The reader passes a value of this text. -/
def Skippable (t : Tree ν σ) : Prop :=
  ∀ (after : Blanks) (s : Reader) (r : List UInt8), s.Ahead (t.bytes ++ (after.bytes ++ r)) →
    StopsItem r → ∃ w : Blanks, s.skipValue = s.goTo (w.bytes ++ r) s.depth ∧
      w.bytes.length ≤ after.bytes.length

/-- All values of RFC 8259 are passed. -/
theorem skippable_json (t : Json) : Skippable t := by
  intro after s r h hr
  obtain ⟨w, hv, hw⟩ := Reader.value_tree t after s r h hr.endsRun fun _ => hr
  refine ⟨w, ?_, ?_⟩
  · rw [Reader.skipValue, hv]
  · rcases hw with rfl | ⟨rfl, -⟩
    · exact Nat.le_refl _
    · exact Nat.zero_le _

namespace Assigns

variable {clean : Prop} {res : Except ReadError Unit × Message × Session}
  {as : List (Option Assignment)} {m : Message} {s' : Reader}

/-- A read of members succeeds exactly if none of them is a failure. -/
theorem ok_iff (h : Assigns clean res as m s') :
    res.1 = .ok () ↔ as.all Option.isSome = true := by
  by_cases hall : as.all Option.isSome = true
  · exact ⟨fun _ => hall, fun _ => (if_pos hall ▸ h.2).1⟩
  · obtain ⟨e, he⟩ := if_neg hall ▸ h.2
    refine ⟨fun hok => ?_, fun h => absurd h hall⟩
    rw [he] at hok
    cases hok

theorem reader (h : Assigns clean res as m s') (hok : res.1 = .ok ()) :
    res.2.2.reader = s' := (if_pos (h.ok_iff.1 hok) ▸ h.2).2

end Assigns

theorem AssignsOne.reader {clean : Prop} {res : Except ReadError Unit × Message × Session}
    {o : Option Assignment} {m m' : Message} {s' : Reader} {st' : Session}
    (h : AssignsOne clean res o m s') (hres : res = (.ok (), m', st')) : st'.reader = s' := by
  cases o with
  | none =>
    obtain ⟨e, st'', he⟩ := h
    cases hres.symm.trans he
  | some a =>
    obtain ⟨m'', ps, hm, -⟩ := h
    cases hres.symm.trans hm
    rfl

namespace Session

variable {clean : Prop} {s' : Reader}

/-- Less may be asked of the pools. -/
theorem Yields.imp {α : Type} {clean' : Prop} {res : Except ReadError α × Session} {o : Option α}
    (h : Yields clean res o s') (hclean : clean' → clean) : Yields clean' res o s' := by
  cases o with
  | none => exact h
  | some a =>
    obtain ⟨a', ps, hres, ha⟩ := h
    exact ⟨a', ps, hres, fun h' => ha (hclean h')⟩

theorem Yields.reader {α : Type} {res : Except ReadError α × Session} {o : Option α} {a : α}
    {st' : Session} (h : Yields clean res o s') (hres : res = (.ok a, st')) : st'.reader = s' := by
  cases o with
  | none =>
    obtain ⟨e, st'', he⟩ := h
    cases hres.symm.trans he
  | some b =>
    obtain ⟨b', ps, hb, -⟩ := h
    cases hres.symm.trans hb
    rfl

/-- A read of the reader alone. -/
theorem take_yields {α : Type} {res : Except SyntaxError α × Reader} {o : Option α} (f : α → Datum)
    (h : Reader.Yields res o s') : Yields clean (st.take res f) (o.map f) s' := by
  cases o with
  | none =>
    obtain ⟨e, s'', rfl⟩ := h
    exact ⟨_, _, rfl⟩
  | some a =>
    rw [show res = (.ok a, s') from h]
    exact ⟨_, _, rfl, fun _ => rfl⟩

end Session

namespace Schema

open Session

/-! ## Single values -/

/-- Values that are no messages are read as they convert. -/
theorem readDatum_scalar (kind : Kind) (hk : ∀ i, kind ≠ .message i) (t : Tree ν σ)
    (h : st.reader.Ahead (t.bytes ++ r)) (hr : EndsRun r) (clean : Prop) :
    Yields clean (schema.readDatum kind st)
      (t.datum? schema st.reader.options st.reader.depth kind)
      (st.reader.goTo r st.reader.depth) := by
  cases kind with
  | bool =>
    rw [readDatum_bool, Tree.datum?]
    exact take_yields _ (Reader.bool_tree t h hr)
  | integer k =>
    rw [readDatum_integer, Tree.datum?]
    exact take_yields _ (Reader.integer_tree k t h hr)
  | float32 =>
    rw [readDatum_float32, Tree.datum?]
    exact take_yields _ (Reader.binary_tree .single t h hr)
  | float64 =>
    rw [readDatum_float64, Tree.datum?]
    exact take_yields _ (Reader.binary_tree .double t h hr)
  | string =>
    rw [readDatum_string, Tree.datum?]
    exact take_yields _ (Reader.string_tree t h hr)
  | bytes =>
    rw [readDatum_bytes, Tree.datum?]
    exact take_yields _ (Reader.bytes_tree t h hr)
  | enumeration i =>
    have hread := Reader.enumeration_tree (schema.enumType i) t h hr
    rw [readDatum_enumeration, Tree.datum?]
    cases ho : (t.enumReference? st.reader.options.decodeEscapes).bind
        (resolve? (schema.enumType i)) with
    | none =>
      rw [ho] at hread
      obtain ⟨e, s'', hs⟩ := hread
      rw [hs]
      exact ⟨_, _, rfl⟩
    | some v =>
      rw [ho] at hread
      rw [show st.reader.enumeration (schema.enumType i) = _ from hread]
      exact ⟨_, _, rfl, fun _ => rfl⟩
  | message i => exact absurd rfl (hk i)

/-- The members of an object are read if one more container may be opened. -/
theorem readMessage_object (schema : Schema) (st : Session) (index : Nat) (m : Message)
    (pad : Blanks) (members : Members ν σ)
    (h : st.reader.Ahead ((Tree.object pad members : Tree ν σ).bytes ++ r)) :
    if st.reader.depth < Reader.maxDepth then
      schema.readMessage index m st = schema.readFields index m (st.moveTo (st.reader.goTo
        (pad.bytes ++ (members.bytes true ++ ascii '}' :: r)) (st.reader.depth + 1)))
    else ∃ e st', schema.readMessage index m st = (.error e, m, st') := by
  have hopen := Reader.symbol_open (.inl rfl) (.object pad members) rfl h
  rw [Tree.tail_object] at hopen
  rw [readMessage_eq]
  by_cases hd : st.reader.depth < Reader.maxDepth
  · rw [if_pos hd] at hopen ⊢
    rw [show st.reader.symbol (ascii '{') = _ from hopen]
  · rw [if_neg hd] at hopen ⊢
    obtain ⟨e, s'', hs⟩ := hopen
    rw [hs]
    exact ⟨_, _, rfl⟩

/-- A message is read into a new one. -/
theorem readDatum_object (i : Nat) (pad : Blanks) (members : Members ν σ)
    (h : st.reader.Ahead ((Tree.object pad members : Tree ν σ).bytes ++ r))
    (hmembers : ∀ (m : Message) (ps : Pools),
      Assigns (m.OfType schema i ∧ ps.Clean schema)
        (schema.readFields i m ⟨ps, st.reader.goTo
          (pad.bytes ++ (members.bytes true ++ ascii '}' :: r)) (st.reader.depth + 1)⟩)
        (members.assignments schema st.reader.options (st.reader.depth + 1) i) m
        (st.reader.goTo r st.reader.depth)) :
    Yields (st.pools.Clean schema) (schema.readDatum (.message i) st)
      ((Tree.object pad members : Tree ν σ).datum? schema st.reader.options st.reader.depth
        (.message i))
      (st.reader.goTo r st.reader.depth) := by
  have hnew : st.pools.Clean schema →
      (st.pools.acquire schema i).1 = schema.emptyMessage i ∧
        (st.pools.acquire schema i).2.Clean schema := fun h => h.acquire i
  rw [readDatum_message, Tree.datum?]
  dsimp only
  -- The message may be any that was taken; what is in it matters only if the pools are clean.
  generalize st.pools.acquire schema i = acquired at hnew ⊢
  obtain ⟨m, ps⟩ := acquired
  have hread := readMessage_object schema ⟨ps, st.reader⟩ i m pad members h
  obtain ⟨hvalue, hres⟩ := hmembers m ps
  dsimp only at hread ⊢
  by_cases hd : st.reader.depth < Reader.maxDepth
  · rw [if_pos hd] at hread
    rw [hread]
    dsimp only [Session.moveTo]
    generalize schema.readFields i m _ = res at hvalue hres ⊢
    obtain ⟨r₁, m', st'⟩ := res
    by_cases hall : (members.assignments schema st.reader.options (st.reader.depth + 1) i).all
        Option.isSome = true
    · rw [if_pos hall] at hres
      rw [if_pos ⟨hd, hall⟩]
      obtain ⟨rfl, hreader⟩ := hres
      refine ⟨.message m', st'.pools, ?_, fun hclean => ?_⟩
      · rw [← hreader]
      · obtain ⟨rfl, hps⟩ := hnew hclean
        rw [show m' = _ from hvalue ⟨emptyMessage_ofType i, hps⟩]
    · rw [if_neg hall] at hres
      rw [if_neg fun h => hall h.2]
      obtain ⟨e, rfl⟩ := hres
      exact ⟨_, _, rfl⟩
  · rw [if_neg hd] at hread
    obtain ⟨e, st', hs⟩ := hread
    rw [hs, if_neg fun h => hd h.1]
    exact ⟨_, _, rfl⟩

/-- No other text is a message. -/
theorem readDatum_noObject (i : Nat) (t : Tree ν σ) (ht : t.head ≠ .symbol (ascii '{'))
    (h : st.reader.Ahead (t.bytes ++ r)) (hr : EndsRun r) {clean : Prop} :
    Yields clean (schema.readDatum (.message i) st)
      (t.datum? schema st.reader.options st.reader.depth (.message i))
      (st.reader.goTo r st.reader.depth) := by
  obtain ⟨e, s', hs⟩ := Reader.symbol_other t ht h hr
  have hnone : t.datum? schema st.reader.options st.reader.depth (.message i) = none := by
    cases t with
    | object pad members => exact absurd rfl ht
    | _ => rfl
  rw [readDatum_message, hnone]
  dsimp only
  rw [readMessage_eq]
  dsimp only
  rw [hs]
  exact ⟨_, _, rfl⟩

/-! ## Fields -/

/-- What is read is put where it converts. -/
theorem store_assigns {clean : Prop} {α : Type} {m : Message} {s' : Reader} {o : Option α}
    {res : Except ReadError α × Session} (h : Yields clean res o s')
    {put : α → Pools → Message × Pools} {f : α → Assignment}
    (hput : ∀ a ps, (put a ps).1 = (f a).put m) : AssignsOne clean (store m put res) (o.map f) m s'
    := by
  cases o with
  | none =>
    obtain ⟨e, st', rfl⟩ := h
    exact ⟨e, st', rfl⟩
  | some a =>
    obtain ⟨a', ps', rfl, ha⟩ := h
    refine ⟨_, _, rfl, fun hclean => ?_⟩
    rw [ha hclean, hput]

/-- The value of a field is assigned if it converts as a single value, a list or a map. -/
theorem readSlot_yields {clean : Prop} {s' : Reader} (index : Nat) (slot : Slot) (m : Message)
    {datum? : Kind → Option Datum} {elements? : Kind → Option (List Datum)}
    {entries? : KeyKind → Kind → Option (List (MapKey × Datum))}
    {datum elements entries : Kind → Prop} (hslot : slot.Reads datum elements entries)
    (hdatum : ∀ kind, datum kind → Yields clean (schema.readDatum kind st) (datum? kind) s')
    (hlist : ∀ kind, elements kind → Yields clean (schema.readList kind st) (elements? kind) s')
    (hmap : ∀ keyKind kind, entries kind →
      Yields clean (schema.readMap keyKind kind st) (entries? keyKind kind) s') :
    AssignsOne clean (schema.readSlot index slot m st)
      (slot.assignment? datum? elements? entries?) m s' := by
  cases slot with
  | member j k f =>
    rw [readSlot_member_eq]
    exact store_assigns (hdatum f.kind hslot) fun _ _ => rfl
  | plain i f =>
    rw [Slot.assignment?]
    cases hf : f.cardinality with
    | singular =>
      rw [Slot.reads_singular hf] at hslot
      rw [readSlot_singular_eq index i f hf]
      exact store_assigns (hdatum f.kind hslot) fun _ _ => rfl
    | list =>
      rw [Slot.reads_list hf] at hslot
      rw [readSlot_list_eq index i f hf]
      exact store_assigns (hlist f.kind hslot) fun _ _ => rfl
    | map keyKind =>
      rw [Slot.reads_map hf] at hslot
      rw [readSlot_map_eq index i f keyKind hf]
      exact store_assigns (hmap keyKind f.kind hslot) fun _ _ => rfl

/-! ## Lists and maps -/

/-- An array is read as a list, if one more container may be opened. -/
theorem readList_array (kind : Kind) (pad : Blanks) (items : Items ν σ)
    (h : st.reader.Ahead ((Tree.array pad items : Tree ν σ).bytes ++ r))
    {clean : Prop}
    (hitems : Yields clean
      (schema.readElements kind [] (st.moveTo (st.reader.goTo
        (pad.bytes ++ (items.bytes true ++ ascii ']' :: r)) (st.reader.depth + 1))))
      (items.data? schema st.reader.options (st.reader.depth + 1) kind)
      (st.reader.goTo r st.reader.depth)) :
    Yields clean (schema.readList kind st)
      ((Tree.array pad items : Tree ν σ).elements? schema st.reader.options st.reader.depth kind)
      (st.reader.goTo r st.reader.depth) := by
  have hopen := Reader.symbol_open (.inr rfl) (.array pad items) rfl h
  rw [Tree.tail_array] at hopen
  rw [readList, Tree.elements?]
  by_cases hd : st.reader.depth < Reader.maxDepth
  · rw [if_pos hd] at hopen ⊢
    rw [show st.reader.symbol (ascii '[') = _ from hopen]
    exact hitems
  · rw [if_neg hd] at hopen ⊢
    obtain ⟨e, s'', hs⟩ := hopen
    rw [hs]
    exact ⟨_, _, rfl⟩

/-- No other text is a list. -/
theorem readList_noArray (kind : Kind) (t : Tree ν σ) (ht : t.head ≠ .symbol (ascii '['))
    (h : st.reader.Ahead (t.bytes ++ r)) (hr : EndsRun r) {clean : Prop} :
    Yields clean (schema.readList kind st)
      (t.elements? schema st.reader.options st.reader.depth kind)
      (st.reader.goTo r st.reader.depth) := by
  obtain ⟨e, s', hs⟩ := Reader.symbol_other t ht h hr
  have hnone : t.elements? schema st.reader.options st.reader.depth kind = none := by
    cases t with
    | array pad items => exact absurd rfl ht
    | _ => rfl
  rw [readList, hs, hnone]
  exact ⟨_, _, rfl⟩

/-- An object is read as a map, if one more container may be opened. -/
theorem readMap_object (keyKind : KeyKind) (kind : Kind) (pad : Blanks) (members : Members ν σ)
    (h : st.reader.Ahead ((Tree.object pad members : Tree ν σ).bytes ++ r))
    {clean : Prop}
    (hpairs : Yields clean
      (schema.readEntries keyKind kind [] (st.moveTo (st.reader.goTo
        (pad.bytes ++ (members.bytes true ++ ascii '}' :: r)) (st.reader.depth + 1))))
      ((members.pairs? schema st.reader.options (st.reader.depth + 1) keyKind kind).map
        (addEntries · []))
      (st.reader.goTo r st.reader.depth)) :
    Yields clean (schema.readMap keyKind kind st)
      ((Tree.object pad members : Tree ν σ).entries? schema st.reader.options st.reader.depth
        keyKind kind)
      (st.reader.goTo r st.reader.depth) := by
  have hopen := Reader.symbol_open (.inl rfl) (.object pad members) rfl h
  rw [Tree.tail_object] at hopen
  rw [readMap, Tree.entries?]
  by_cases hd : st.reader.depth < Reader.maxDepth
  · rw [if_pos hd] at hopen ⊢
    rw [show st.reader.symbol (ascii '{') = _ from hopen]
    exact hpairs
  · rw [if_neg hd] at hopen ⊢
    obtain ⟨e, s'', hs⟩ := hopen
    rw [hs]
    exact ⟨_, _, rfl⟩

/-- No other text is a map. -/
theorem readMap_noObject (keyKind : KeyKind) (kind : Kind) (t : Tree ν σ)
    (ht : t.head ≠ .symbol (ascii '{')) (h : st.reader.Ahead (t.bytes ++ r)) (hr : EndsRun r)
    {clean : Prop} :
    Yields clean (schema.readMap keyKind kind st)
      (t.entries? schema st.reader.options st.reader.depth keyKind kind)
      (st.reader.goTo r st.reader.depth) := by
  obtain ⟨e, s', hs⟩ := Reader.symbol_other t ht h hr
  have hnone : t.entries? schema st.reader.options st.reader.depth keyKind kind = none := by
    cases t with
    | object pad members => exact absurd rfl ht
    | _ => rfl
  rw [readMap, hs, hnone]
  exact ⟨_, _, rfl⟩

/-! ## Induction over the text -/

/-- The step of the loop over the elements of a list. -/
theorem readElements_cons {kind : Kind} {before : List Datum} {o : Option Datum}
    {os : Option (List Datum)} {s₁ s' : Reader} (hat : st.reader.atSymbol (ascii ']') = false)
    (hv : Yields (st.pools.Clean schema) (schema.readDatum kind st) o s₁)
    (hrest : ∀ (d : Datum) (ps : Pools), Yields (ps.Clean schema)
      (schema.readElements kind (d :: before) ⟨ps, s₁.comma⟩)
      (os.map ((d :: before).reverse ++ ·)) s') :
    Yields (st.pools.Clean schema) (schema.readElements kind before st)
      ((o.bind fun d => os.map (d :: ·)).map (before.reverse ++ ·)) s' := by
  have hsound : st.pools.Clean schema →
      Sound schema (·.OfKind schema kind) (schema.readDatum kind st) :=
    Call.sound schema (.datum kind st)
  rw [readElements_eq, if_neg (by simp [hat])]
  cases o with
  | none =>
    obtain ⟨e, st', hs⟩ := hv
    rw [hs]
    exact ⟨_, _, rfl⟩
  | some d =>
    obtain ⟨d', ps, hs, hd⟩ := hv
    rw [hs] at hsound ⊢
    have hnext := hrest d' ps
    cases os with
    | none => exact hnext
    | some ds =>
      obtain ⟨ds', ps', hs', hds⟩ := hnext
      refine ⟨ds', ps', hs', fun hclean => ?_⟩
      -- The pools are still clean behind the element, so the rest is read as it converts.
      rw [hds (hsound hclean).2, hd hclean]
      simp

/-- The step of the loop over the entries of a map. -/
theorem readEntries_cons {keyKind : KeyKind} {kind : Kind} {before : List (MapKey × Datum)}
    {key : Option MapKey} {o : Option Datum} {os : Option (List (MapKey × Datum))}
    {s₀ s₁ s' : Reader} (hat : st.reader.atSymbol (ascii '}') = false)
    (hkey : Reader.Yields (st.reader.mapKey keyKind) key s₀)
    (hv : Yields (st.pools.Clean schema) (schema.readDatum kind (st.moveTo s₀.colon)) o s₁)
    (hrest : ∀ (es : List (MapKey × Datum)) (ps : Pools),
      Yields (ps.Clean schema ∧ ∀ e ∈ es, e.2.OfKind schema kind)
        (schema.readEntries keyKind kind es ⟨ps, s₁.comma⟩) (os.map (addEntries · es)) s') :
    Yields (st.pools.Clean schema ∧ ∀ e ∈ before, e.2.OfKind schema kind)
      (schema.readEntries keyKind kind before st)
      ((key.bind fun k => o.bind fun d => os.map ((k, d) :: ·)).map (addEntries · before)) s' := by
  have hsound : st.pools.Clean schema → Sound schema (·.OfKind schema kind)
      (schema.readDatum kind (st.moveTo s₀.colon)) :=
    Call.sound schema (.datum kind (st.moveTo s₀.colon))
  rw [readEntries_eq, if_neg (by simp [hat])]
  cases key with
  | none =>
    obtain ⟨e, s'', hs⟩ := hkey
    rw [hs]
    exact ⟨_, _, rfl⟩
  | some k =>
    rw [show st.reader.mapKey keyKind = _ from hkey]
    dsimp only
    cases o with
    | none =>
      obtain ⟨e, st', hs⟩ := hv
      rw [hs]
      exact ⟨_, _, rfl⟩
    | some d =>
      obtain ⟨d', ps, hs, hd⟩ := hv
      rw [hs] at hsound ⊢
      dsimp only
      have hnext := hrest (insertEntry k d' before).1
        (recycleReplaced schema kind (insertEntry k d' before).2 ps)
      cases os with
      | none => exact hnext
      | some es =>
        obtain ⟨es', ps', hs', hes⟩ := hnext
        refine ⟨es', ps', hs', fun ⟨hclean, hbefore⟩ => ?_⟩
        -- What was read before the entry keeps its kind, also where the entry replaces a value.
        obtain ⟨hkind, hps⟩ := hsound hclean
        have hnew := insertEntry_ofKind k (hkind d' rfl) hbefore
        have hpools := recycleReplaced_clean (replaced_ofKind k d' hbefore) hps
        rw [hes ⟨hpools, hnew⟩, hd hclean]
        rfl

/-- A key that is no text ends the loop over the members of a message. -/
theorem readFields_bad {index : Nat} {m : Message} {as : List (Option Assignment)}
    {s₀ s' : Reader} {clean : Prop} (hat : st.reader.atSymbol (ascii '}') = false)
    (hkey : Reader.Yields st.reader.string none s₀) :
    Assigns clean (schema.readFields index m st) (none :: as) m s' := by
  obtain ⟨e, s'', hs⟩ := hkey
  rw [readFields_eq, if_neg (by simp [hat]), hs]
  exact ⟨fun _ => rfl, _, rfl⟩

/-- The loop passes the value of an unknown key. -/
theorem readFields_unknown {index : Nat} {m : Message} {name : String} {s₀ : Reader}
    (hat : st.reader.atSymbol (ascii '}') = false)
    (hkey : Reader.Yields st.reader.string (some name) s₀)
    (hslot : (schema.messageType index).slot? name = none) :
    schema.readFields index m st
      = schema.readFields index m (st.moveTo s₀.colon.skipValue.comma) := by
  rw [readFields_eq, if_neg (by simp [hat]), show st.reader.string = _ from hkey]
  dsimp only
  rw [hslot]

/-- The step of the loop for a known key. -/
theorem readFields_known {index : Nat} {m : Message} {name : String} {slot : Slot}
    {o : Option Assignment} {as : List (Option Assignment)} {s₀ s₁ s' : Reader}
    (hat : st.reader.atSymbol (ascii '}') = false)
    (hkey : Reader.Yields st.reader.string (some name) s₀)
    (hslot : (schema.messageType index).slot? name = some slot)
    (hv : AssignsOne (st.pools.Clean schema)
      (schema.readSlot index slot m (st.moveTo s₀.colon)) o m s₁)
    (hrest : ∀ (m : Message) (ps : Pools), Assigns (m.OfType schema index ∧ ps.Clean schema)
      (schema.readFields index m ⟨ps, s₁.comma⟩) as m s') :
    Assigns (m.OfType schema index ∧ st.pools.Clean schema) (schema.readFields index m st)
      (o :: as) m s' := by
  have hsound : m.OfType schema index → st.pools.Clean schema →
      SoundMessage schema index (schema.readSlot index slot m (st.moveTo s₀.colon)) :=
    Call.sound schema (.slot index slot m (st.moveTo s₀.colon)) (MessageType.slot?_isOf hslot)
  rw [readFields_eq, if_neg (by simp [hat]), show st.reader.string = _ from hkey]
  dsimp only
  rw [hslot]
  dsimp only
  cases o with
  | none =>
    obtain ⟨e, st', hs⟩ := hv
    rw [hs]
    exact ⟨fun _ => rfl, _, rfl⟩
  | some a =>
    obtain ⟨m', ps, hs, hm'⟩ := hv
    rw [hs] at hsound ⊢
    obtain ⟨hvalue, hres⟩ := hrest m' ps
    refine ⟨fun ⟨hm, hclean⟩ => ?_, hres⟩
    have hput : assignAll as m' = assignAll (some a :: as) m := by rw [hm' hclean]; rfl
    exact (hvalue (hsound hm hclean)).trans hput

section Induction

variable {p : Tree ν σ → Prop}

mutual

/-- A value is read as it converts. -/
theorem readDatum_tree (hp : ∀ t : Tree ν σ, p t → Skippable t) (t : Tree ν σ) (kind : Kind)
    (st : Session) (r : List UInt8)
    (h : st.reader.Ahead (t.bytes ++ r)) (hr : EndsRun r)
    (hskip : t.DatumSkips p schema st.reader.options kind) :
    Yields (st.pools.Clean schema) (schema.readDatum kind st)
      (t.datum? schema st.reader.options st.reader.depth kind)
      (st.reader.goTo r st.reader.depth) := by
  cases kind with
  | message i =>
    cases t with
    | object pad members =>
      have hle := h.length_le
      simp only [Tree.bytes, List.length_append, List.length_cons, List.length_nil] at hle
      apply readDatum_object i pad members h
      intro m ps
      have hmembers := readFields_tree hp members true i m
        ⟨ps, st.reader.goTo (pad.bytes ++ (members.bytes true ++ ascii '}' :: r))
          (st.reader.depth + 1)⟩ r (Reader.atLoop_open pad _ _) hskip
      rw [Reader.goTo_goTo (by simp; omega) (by simp; omega)] at hmembers
      exact hmembers
    | _ => exact readDatum_noObject i _ (by simp [Tree.head, ascii]) h hr
  | _ => exact readDatum_scalar _ (by simp) t h hr _

/-- A list is read as it converts. -/
theorem readList_tree (hp : ∀ t : Tree ν σ, p t → Skippable t) (t : Tree ν σ) (kind : Kind)
    (st : Session) (r : List UInt8)
    (h : st.reader.Ahead (t.bytes ++ r)) (hr : EndsRun r)
    (hskip : t.ElementsSkip p schema st.reader.options kind) :
    Yields (st.pools.Clean schema) (schema.readList kind st)
      (t.elements? schema st.reader.options st.reader.depth kind)
      (st.reader.goTo r st.reader.depth) := by
  cases t with
  | array pad items =>
    have hle := h.length_le
    simp only [Tree.bytes, List.length_append, List.length_cons, List.length_nil] at hle
    apply readList_array kind pad items h
    have hitems := readElements_tree hp items true kind
      (st.moveTo (st.reader.goTo (pad.bytes ++ (items.bytes true ++ ascii ']' :: r))
        (st.reader.depth + 1))) r [] (Reader.atLoop_open pad _ _) hskip
    rw [Session.reader_moveTo,
      Reader.goTo_goTo (by simp; omega) (by simp; omega)] at hitems
    simpa using hitems
  | _ => exact readList_noArray kind _ (by simp [Tree.head, ascii]) h hr

/-- A map is read as it converts. -/
theorem readMap_tree (hp : ∀ t : Tree ν σ, p t → Skippable t) (t : Tree ν σ) (keyKind : KeyKind)
    (kind : Kind) (st : Session) (r : List UInt8) (h : st.reader.Ahead (t.bytes ++ r))
    (hr : EndsRun r)
    (hskip : t.EntriesSkip p schema st.reader.options kind) :
    Yields (st.pools.Clean schema) (schema.readMap keyKind kind st)
      (t.entries? schema st.reader.options st.reader.depth keyKind kind)
      (st.reader.goTo r st.reader.depth) := by
  cases t with
  | object pad members =>
    have hle := h.length_le
    simp only [Tree.bytes, List.length_append, List.length_cons, List.length_nil] at hle
    apply readMap_object keyKind kind pad members h
    have hpairs := readEntries_tree hp members true keyKind kind
      (st.moveTo (st.reader.goTo (pad.bytes ++ (members.bytes true ++ ascii '}' :: r))
        (st.reader.depth + 1))) r [] (Reader.atLoop_open pad _ _) hskip
    rw [Session.reader_moveTo,
      Reader.goTo_goTo (by simp; omega) (by simp; omega)] at hpairs
    exact hpairs.imp fun hclean => ⟨hclean, fun _ he => by cases he⟩
  | _ => exact readMap_noObject keyKind kind _ (by simp [Tree.head, ascii]) h hr

/-- The elements of a list are read in turn, after those before. -/
theorem readElements_tree (hp : ∀ t : Tree ν σ, p t → Skippable t) (items : Items ν σ)
    (first : Bool) (kind : Kind) (st : Session) (r : List UInt8) (before : List Datum)
    (h : st.reader.AtLoop first (items.bytes first ++ ascii ']' :: r))
    (hskip : items.Skip p schema st.reader.options kind) :
    Yields (st.pools.Clean schema) (schema.readElements kind before st)
      ((items.data? schema st.reader.options st.reader.depth kind).map (before.reverse ++ ·))
      (st.reader.goTo r (st.reader.depth - 1)) := by
  cases items with
  | nil =>
    obtain ⟨hat, hclose⟩ := h.close (.inr rfl) before.reverse
    rw [readElements_eq, if_pos hat, hclose]
    exact ⟨_, _, rfl, fun _ => (List.append_nil _).symm⟩
  | cons blanks v after rest =>
    rw [Items.bytes_cons_append] at h
    have hle := h.length_le
    simp only [List.length_append, List.length_cons] at hle
    obtain ⟨hat, -⟩ := h.item
    have hends := (Reader.stopsItem_items rest (.inr rfl) r).endsRun.blanks after
    apply readElements_cons hat (readDatum_tree hp v kind st _ h.ahead hends hskip.1)
    intro d ps
    have hrest := readElements_tree hp rest false kind
      ⟨ps, (st.reader.goTo (after.bytes ++ (rest.bytes false ++ ascii ']' :: r))
        st.reader.depth).comma⟩ r (d :: before) (Reader.atLoop_comma after _ _) hskip.2
    rw [Reader.goTo_comma, Reader.goTo_goTo (by simp; omega) (by simp; omega)] at hrest
    exact hrest

/-- The entries of a map are read in turn, and added to those before. -/
theorem readEntries_tree (hp : ∀ t : Tree ν σ, p t → Skippable t) (members : Members ν σ)
    (first : Bool) (keyKind : KeyKind) (kind : Kind) (st : Session) (r : List UInt8)
    (before : List (MapKey × Datum))
    (h : st.reader.AtLoop first (members.bytes first ++ ascii '}' :: r))
    (hskip : members.PairsSkip p schema st.reader.options kind) :
    Yields (st.pools.Clean schema ∧ ∀ e ∈ before, e.2.OfKind schema kind)
      (schema.readEntries keyKind kind before st)
      ((members.pairs? schema st.reader.options st.reader.depth keyKind kind).map
        (addEntries · before))
      (st.reader.goTo r (st.reader.depth - 1)) := by
  cases members with
  | nil =>
    obtain ⟨hat, hclose⟩ := h.close (.inl rfl) before
    rw [readEntries_eq, if_pos hat, hclose]
    exact ⟨_, _, rfl, fun _ => rfl⟩
  | cons blanks key afterKey beforeValue v after rest =>
    rw [Members.bytes_cons_append] at h
    have hle := h.length_le
    simp only [List.length_append, List.length_cons] at hle
    obtain ⟨hat, -, hkey⟩ := h.key
    have hends := (Reader.stopsItem_members rest (.inl rfl) r).endsRun.blanks after
    have hv := readDatum_tree hp v kind
      (st.moveTo (st.reader.goTo (afterKey.bytes ++ ascii ':' :: (beforeValue.bytes ++ (v.bytes ++
        (after.bytes ++ (rest.bytes false ++ ascii '}' :: r))))) st.reader.depth).colon) _
      (Reader.ahead_colon afterKey beforeValue _ _) hends hskip.1
    rw [Session.reader_moveTo, Reader.goTo_colon,
      Reader.goTo_goTo (by simp; omega) (by simp; omega)] at hv
    apply readEntries_cons hat (hkey keyKind) hv
    intro es ps
    have hrest := readEntries_tree hp rest false keyKind kind
      ⟨ps, (st.reader.goTo (after.bytes ++ (rest.bytes false ++ ascii '}' :: r))
        st.reader.depth).comma⟩ r es (Reader.atLoop_comma after _ _) hskip.2
    rw [Reader.goTo_comma, Reader.goTo_goTo (by simp; omega) (by simp; omega)] at hrest
    exact hrest

/-- The members of a message are assigned in turn. -/
theorem readFields_tree (hp : ∀ t : Tree ν σ, p t → Skippable t) (members : Members ν σ)
    (first : Bool) (index : Nat) (m : Message) (st : Session) (r : List UInt8)
    (h : st.reader.AtLoop first (members.bytes first ++ ascii '}' :: r))
    (hskip : members.Skip p schema st.reader.options index) :
    Assigns (m.OfType schema index ∧ st.pools.Clean schema) (schema.readFields index m st)
      (members.assignments schema st.reader.options st.reader.depth index) m
      (st.reader.goTo r (st.reader.depth - 1)) := by
  cases members with
  | nil =>
    obtain ⟨hat, hclose⟩ := h.close (.inl rfl) ()
    rw [readFields_eq, if_pos hat, hclose]
    exact ⟨fun _ => rfl, rfl, rfl⟩
  | cons blanks key afterKey beforeValue v after rest =>
    rw [Members.bytes_cons_append] at h
    have hle := h.length_le
    simp only [List.length_append, List.length_cons] at hle
    obtain ⟨hat, hkey, -⟩ := h.key
    have hvalue := Reader.ahead_colon (s := st.reader) afterKey beforeValue
      (v.bytes ++ (after.bytes ++ (rest.bytes false ++ ascii '}' :: r))) st.reader.depth
    have hstop := Reader.stopsItem_members rest (.inl rfl) r
    -- Whatever blanks a passed value leaves, the loop goes on behind the comma.
    have hrest : ∀ (w : Blanks) (m : Message) (ps : Pools), w.bytes.length ≤ after.bytes.length →
        Assigns (m.OfType schema index ∧ ps.Clean schema)
          (schema.readFields index m ⟨ps, (st.reader.goTo
            (w.bytes ++ (rest.bytes false ++ ascii '}' :: r)) st.reader.depth).comma⟩)
          (rest.assignments schema st.reader.options st.reader.depth index) m
          (st.reader.goTo r (st.reader.depth - 1)) := by
      intro w m ps hw
      have hnext := readFields_tree hp rest false index m
        ⟨ps, (st.reader.goTo (w.bytes ++ (rest.bytes false ++ ascii '}' :: r))
          st.reader.depth).comma⟩ r (Reader.atLoop_comma w _ _) hskip.tail
      rw [Reader.goTo_comma, Reader.goTo_goTo (by simp; omega) (by simp; omega)] at hnext
      exact hnext
    cases hname : Quotation.text? st.reader.options.decodeEscapes key with
    | none =>
      rw [hname] at hkey
      rw [Members.assignments_bad hname]
      exact readFields_bad hat hkey
    | some name =>
      rw [hname] at hkey
      cases hslot : (schema.messageType index).slot? name with
      | none =>
        obtain ⟨w, hw, hlen⟩ := hp v (hskip.unknown hname hslot) after _ _ hvalue hstop
        rw [Reader.goTo_colon, Reader.goTo_goTo (by simp; omega) (by simp; omega)] at hw
        rw [Members.assignments_unknown hname hslot, readFields_unknown hat hkey hslot, hw]
        exact hrest w m st.pools hlen
      | some slot =>
        have hends := hstop.endsRun.blanks after
        set s₀ := st.reader.goTo (afterKey.bytes ++ ascii ':' :: (beforeValue.bytes ++ (v.bytes ++
          (after.bytes ++ (rest.bytes false ++ ascii '}' :: r))))) st.reader.depth
        -- Where the value ends, nothing is left of the colon that was announced.
        have hmove : s₀.colon.goTo (after.bytes ++ (rest.bytes false ++ ascii '}' :: r))
            st.reader.depth = st.reader.goTo (after.bytes ++ (rest.bytes false ++ ascii '}' :: r))
            st.reader.depth := by
          rw [Reader.goTo_colon]
          exact Reader.goTo_goTo (by simp; omega) (by simp; omega)
        rw [Members.assignments_known hname hslot]
        apply readFields_known hat hkey hslot
        · apply readSlot_yields index slot m (hskip.known hname hslot)
          · intro kind hk
            exact hmove ▸ readDatum_tree hp v kind (st.moveTo s₀.colon) _ hvalue hends hk
          · intro kind hk
            exact hmove ▸ readList_tree hp v kind (st.moveTo s₀.colon) _ hvalue hends hk
          · intro keyKind kind hk
            exact hmove ▸ readMap_tree hp v keyKind kind (st.moveTo s₀.colon) _ hvalue hends hk
        · intro m ps
          exact hrest after m ps le_rfl

end

/-- The value of a field is read as it converts. -/
theorem readSlot_tree (hp : ∀ t : Tree ν σ, p t → Skippable t) (t : Tree ν σ) (index : Nat)
    (slot : Slot) (m : Message) (st : Session) (r : List UInt8)
    (h : st.reader.Ahead (t.bytes ++ r)) (hr : EndsRun r)
    (hskip : t.Skips p schema st.reader.options slot) :
    AssignsOne (st.pools.Clean schema) (schema.readSlot index slot m st)
      (t.assignment? schema st.reader.options st.reader.depth slot) m
      (st.reader.goTo r st.reader.depth) := by
  apply readSlot_yields index slot m hskip
  · intro kind hk
    exact readDatum_tree hp t kind st r h hr hk
  · intro kind hk
    exact readList_tree hp t kind st r h hr hk
  · intro keyKind kind hk
    exact readMap_tree hp t keyKind kind st r h hr hk

/-! ## Reading a text from its start -/

/-- A new session reads the blanks in front of an object and the object. -/
theorem unmarshal_object (schema : Schema) (hp : ∀ t : Tree ν σ, p t → Skippable t) (index : Nat)
    (options : ReadOptions) (m : Message) (ps : Pools)
    (lead pad : Blanks) (members : Members ν σ) (rest : List UInt8)
    (hskip : members.Skip p schema options index) :
    Assigns (m.OfType schema index ∧ ps.Clean schema)
      (schema.unmarshal index
        (lead.bytes ++ (Tree.object pad members : Tree ν σ).bytes ++ rest) options m ps)
      (members.assignments schema options 1 index) m
      { options, rest,
        offset := (lead.bytes ++ (Tree.object pad members : Tree ν σ).bytes).length } := by
  set s := Reader.ofBytes (lead.bytes ++ (Tree.object pad members : Tree ν σ).bytes ++ rest) options
    with hs
  have h : s.Ahead ((Tree.object pad members : Tree ν σ).bytes ++ rest) :=
    ⟨rfl, lead.bytes, .free lead, List.append_assoc ..⟩
  have hle := h.length_le
  simp only [Tree.bytes, List.length_append, List.length_cons, List.length_nil] at hle
  have hread := readMessage_object schema ⟨ps, s⟩ index m pad members h
  have hdepth : (⟨ps, s⟩ : Session).reader.depth < Reader.maxDepth := by
    show 0 < 128
    decide
  rw [if_pos hdepth] at hread
  have hfields := readFields_tree hp members true index m ⟨ps, s.goTo
    (pad.bytes ++ (members.bytes true ++ ascii '}' :: rest)) 1⟩ rest (Reader.atLoop_open pad _ _)
    hskip
  have hend : s.goTo rest 0 =
      { options, rest,
        offset := (lead.bytes ++ (Tree.object pad members : Tree ν σ).bytes).length } := by
    simp [Reader.goTo, hs, Reader.ofBytes]
    omega
  rw [Reader.goTo_goTo (by simp; omega) (by simp; omega)] at hfields
  rw [unmarshal, hread, ← hend]
  exact hfields

end Induction

/-- Decoding the text of an object is a fold over its members. It succeeds exactly if every member
of a declared key converts, and then the message has all assignments in the order of the text;
otherwise it has those in front of the first failure. Members of unknown keys do nothing, and the
reader stops right after the object. -/
theorem unmarshal_fold {ps : Pools} {index : Nat} {m : Message} (hps : ps.Reachable schema)
    (hm : m.OfType schema index) (options : ReadOptions) (lead pad : Blanks)
    (members : Members NumberLiteral StringLiteral) (rest : List UInt8) :
    ∃ res m' st', schema.unmarshal index
        (lead.bytes ++ (Tree.object pad members : Json).bytes ++ rest) options m ps
        = (res, m', st') ∧
      (res = .ok () ↔
        (members.assignments schema options 1 index).all Option.isSome = true) ∧
      m' = assignAll (members.assignments schema options 1 index) m ∧
      (res = .ok () →
        m' = (members.assignments schema options 1 index).reduceOption.foldl Assignment.put m ∧
          st'.reader.rest = rest ∧ st'.reader.depth = 0 ∧
          st'.reader.offset = (lead.bytes ++ (Tree.object pad members : Json).bytes).length) := by
  have hfold := unmarshal_object schema (fun t _ => skippable_json t)
    index options m ps lead pad members rest
    (Members.skip_of_forall (fun _ => trivial) index members)
  generalize schema.unmarshal index _ options m ps = res at hfold ⊢
  obtain ⟨res, m', st'⟩ := res
  have hm' : m' = assignAll (members.assignments schema options 1 index) m :=
    hfold.1 ⟨hm, hps.clean⟩
  refine ⟨res, m', st', rfl, hfold.ok_iff, hm', fun hok => ?_⟩
  have hall := hfold.ok_iff.1 hok
  rw [show st'.reader = _ from hfold.reader hok]
  exact ⟨hm'.trans (assignAll_eq_foldl hall m), rfl, rfl, rfl⟩

/-- The members of a node: its child, which holds seven, and an empty list that no field is for. -/
def nodeMembers : Members NumberLiteral StringLiteral :=
  .cons .empty (.ofString "child") .empty .empty
    (.object .empty
      (.cons .empty (.ofString "value") .empty .empty (.number (.ofInt 7)) .empty .nil))
    .empty (.cons .empty (.ofString "x") .empty .empty (.array .empty .nil) .empty .nil)

/-- A node is read from new pools. -/
theorem unmarshal_fold_node :
    (Pools.ofSchema Example.schema).Reachable Example.schema ∧
      (Example.schema.emptyMessage 5).OfType Example.schema 5 ∧
      ∃ m' st', Example.schema.unmarshal 5
        (Blanks.empty.bytes ++ (Tree.object .empty nodeMembers : Json).bytes ++ []) ⟨true, true⟩
        (Example.schema.emptyMessage 5) (.ofSchema Example.schema) = (.ok (), m', st') := by
  have hps : (Pools.ofSchema Example.schema).Reachable Example.schema :=
    .start _ (by simp [Pools.ofSchema, Pool.empty, Pool.withCapacity])
  have hm : (Example.schema.emptyMessage 5).OfType Example.schema 5 := emptyMessage_ofType 5
  have hall :
      (nodeMembers.assignments Example.schema ⟨true, true⟩ 1 5).all Option.isSome = true := by
    decide +kernel
  obtain ⟨res, m', st', heq, hok, -⟩ :=
    unmarshal_fold hps hm ⟨true, true⟩ .empty .empty nodeMembers []
  exact ⟨hps, hm, m', st', (hok.2 hall) ▸ heq⟩

end Schema

end ProtoJson
