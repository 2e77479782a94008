import ProtoJson.Proofs.Message.Decoding
import ProtoJson.Proofs.Reader.Resync

/-!
# Members of unknown keys

The value of an unknown key may be any balanced text. The decoder goes on after it if nothing can be
read from it, or if all of it is read. Where a value is read from its front and something is left,
the loop over the members finds no comma there and gives the object up.
-/

namespace ProtoJson

open Grammar

namespace Reader

variable {s s₁ : Reader} {g r text : List UInt8} {stop : UInt8}

/-- What is read in front of `tail` leaves nothing but blanks there. -/
def LeavesBlank (s : Reader) (tail : List UInt8) : Prop :=
  ∀ v s₁, s.attempt = (.ok v, s₁) → ∃ w : Blanks, s₁.rest = w.bytes ++ tail

theorem leavesBlank_ahead {tail : List UInt8} (h : s.Ahead text) :
    s.LeavesBlank tail ↔ (s.goTo text s.depth).LeavesBlank tail := by
  rw [LeavesBlank, LeavesBlank, attempt_ahead h]

/-- A balanced text of which nothing is left is passed. -/
theorem skipValue_balanced (h : s.Ahead (g ++ stop :: r)) (hg : Balanced g)
    (hstop : stop = ascii ',' ∨ IsCloser stop) (hblank : s.LeavesBlank (stop :: r)) :
    ∃ w : Blanks, s.skipValue = s.goTo (w.bytes ++ stop :: r) s.depth ∧
      w.bytes.length ≤ g.length := by
  rw [skipValue, value_eq_attempt]
  rcases hattempt : s.attempt with ⟨e | v, s₁⟩
  · exact ⟨.empty, recoverFrom_attempt h hg hstop hattempt, Nat.zero_le _⟩
  · obtain ⟨w, hw⟩ := hblank v s₁ hattempt
    obtain ⟨x, y, rfl, -, rfl⟩ := attempt_ok h hg.matched hstop hattempt
    obtain rfl : y = w.bytes := List.append_cancel_right hw
    exact ⟨w, rfl, by simp⟩

/-- Of a balanced text of which something is left, a byte is next that ends no item. -/
theorem skipValue_leftover (h : s.Ahead (g ++ stop :: r)) (hg : Balanced g)
    (hstop : stop = ascii ',' ∨ IsCloser stop) (hblank : ¬ s.LeavesBlank (stop :: r)) :
    ∃ (w : Blanks) (b : UInt8) (x : List UInt8),
      s.skipValue = s.goTo (w.bytes ++ b :: x) s.depth ∧
      isBlank b = false ∧ b ≠ ascii ',' ∧ ¬ IsCloser b := by
  simp only [LeavesBlank, not_forall] at hblank
  obtain ⟨v, s₁, hattempt, hrest⟩ := hblank
  obtain ⟨x, y, rfl, hx, rfl⟩ := attempt_ok h hg.matched hstop hattempt
  rw [skipValue, value_eq_attempt, hattempt]
  rcases blank_or_cons y with ⟨w, rfl⟩ | ⟨w, b, z, rfl, hb⟩
  · exact absurd ⟨w, rfl⟩ hrest
  · -- The byte stands outside all brackets of the text, so it neither is a comma nor closes one.
    have hw : Leaves (x ++ w.bytes) [] := hx.append (leaves_blanks w)
    have hmatched := hg.matched
    refine ⟨w, b, z ++ stop :: r, by simp, hb, ?_, ?_⟩
    · rintro rfl
      exact hg.noComma (x ++ w.bytes) z (by simp) hw
    · rw [← List.append_assoc] at hmatched
      exact hmatched.not_closer hw

/-- Where a comma is announced and another byte is next, no key is read. -/
theorem string_missing_comma {w : Blanks} {b : UInt8} {x : List UInt8} (ht : s.token = none)
    (hp : s.pending = some (ascii ',')) (hrest : s.rest = w.bytes ++ b :: x)
    (hb : isBlank b = false) (hcomma : b ≠ ascii ',') (hclose : ¬ IsCloser b) :
    ∃ e s₁, s.string = (.error e, s₁) := by
  obtain ⟨e, s₁, hscan⟩ : ∃ e s₁, s.nextToken = (.error e, s₁) := by
    have hr : (s.advance w.bytes.length).rest = b :: x := by simp [advance, hrest]
    rw [nextToken, ht]
    dsimp only
    rw [scan, hp]
    dsimp only
    rw [skipBlanks_eq w hrest hb, hr]
    dsimp only
    by_cases hsep : b = ascii ',' ∨ b = ascii ':'
    · rw [if_pos hsep, if_neg hcomma]
      exact ⟨_, _, rfl⟩
    · rw [if_neg hsep, if_neg fun hc => hclose hc.1]
      exact ⟨_, _, rfl⟩
  rw [string, expect, hscan]
  exact ⟨_, _, rfl⟩

/-- An opening bracket is taken where it stands. -/
theorem symbol_brace (h : s.Ahead (ascii '{' :: text)) (hd : s.depth < maxDepth) :
    s.symbol (ascii '{') = (.ok (), s.goTo text (s.depth + 1)) := by
  obtain ⟨t, hk, hscan⟩ := scanToken_goTo (s := s) (d := s.depth) (n := 1) h.length_le
    (show TokenKind.scan (ascii '{' :: text) = .ok (.symbol (ascii '{'), 1) from rfl) (by simp)
  have hexpect : s.expect (.symbol (ascii '{'))
      (fun k => if k = .symbol (ascii '{') then some () else none)
      = (.ok (t, ()), s.goTo text s.depth) := by
    rw [expect, nextToken_eq_scanToken h (by decide), hscan]
    simp only [hk, if_true]
    rfl
  rw [symbol, hexpect]
  dsimp only
  rw [if_pos (.inl rfl), enter, if_pos (show (s.goTo text s.depth).depth < maxDepth from hd)]
  rfl

end Reader

/-! ## Members in two parts -/

namespace Grammar.Members

variable {ν σ : Type}

/-- The members with others after them. -/
def append : Members ν σ → Members ν σ → Members ν σ
  | .nil, back => back
  | .cons before key afterKey beforeValue v after rest, back =>
    .cons before key afterKey beforeValue v after (rest.append back)

/-- Whether there are no members. -/
def isNil : Members ν σ → Bool
  | .nil => true
  | .cons .. => false

variable [Numeral ν] [Quotation σ]

theorem assignments_append (schema : Schema) (options : ReadOptions) (depth index : Nat)
    (front back : Members ν σ) :
    (front.append back).assignments schema options depth index
      = front.assignments schema options depth index
        ++ back.assignments schema options depth index := by
  cases front with
  | nil => rfl
  | cons before key afterKey beforeValue v after rest =>
    have hrest := assignments_append schema options depth index rest back
    rw [append, assignments, assignments, hrest]
    split
    · rfl
    · split <;> rfl

end Grammar.Members

namespace Schema

open Session

variable {schema : Schema} {st : Session} {r : List UInt8}

/-- The value of a field is assigned if it converts. -/
theorem readSlot_json (schema : Schema) (index : Nat) (slot : Slot) (m : Message) (v : Json)
    (st : Session) (h : st.reader.Ahead (v.bytes ++ r)) (hr : EndsRun r) :
    AssignsOne (st.pools.Clean schema) (schema.readSlot index slot m st)
      (v.assignment? schema st.reader.options st.reader.depth slot) m
      (st.reader.goTo r st.reader.depth) := by
  apply readSlot_tree (fun t _ => skippable_json t) v index slot m st r h hr
  apply Slot.reads_of_forall
  · exact fun kind => Tree.datumSkips_of_forall (fun _ => trivial) kind v
  · exact fun kind => Tree.elementsSkip_of_forall (fun _ => trivial) kind v
  · exact fun kind => Tree.entriesSkip_of_forall (fun _ => trivial) kind v

/-- The loop goes on after a known key whose value is read. -/
theorem readFields_step {index : Nat} {m m' : Message} {name : String} {slot : Slot} {s₀ : Reader}
    {st₁ : Session} (hat : st.reader.atSymbol (ascii '}') = false)
    (hkey : Reader.Yields st.reader.string (some name) s₀)
    (hslot : (schema.messageType index).slot? name = some slot)
    (hv : schema.readSlot index slot m (st.moveTo s₀.colon) = (.ok (), m', st₁)) :
    schema.readFields index m st = schema.readFields index m' (st₁.moveTo st₁.reader.comma) := by
  rw [readFields_eq, if_neg (by simp [hat]), show st.reader.string = _ from hkey]
  dsimp only
  rw [hslot]
  dsimp only
  rw [hv]

/-- The loop over the members of a message comes from `st` to `st'`, where it has `r` in front of
it. -/
structure LoopsTo (schema : Schema) (index : Nat) (m : Message) (st : Session) (m' : Message)
    (st' : Session) (first : Bool) (r : List UInt8) : Prop where
  read : schema.readFields index m st = schema.readFields index m' st'
  typed : m'.OfType schema index
  clean : st'.pools.Clean schema
  atLoop : st'.reader.AtLoop first r
  depth : st'.reader.depth = st.reader.depth
  goTo : ∀ (r' : List UInt8) (d : Nat), r'.length ≤ r.length →
    st'.reader.goTo r' d = st.reader.goTo r' d

/-- The loop has come as far if it went on after the comma that ends an item. -/
theorem LoopsTo.of_comma {index : Nat} {m m₁ m' : Message} {ps₁ : Pools} {st' : Session}
    {first : Bool} {x : List UInt8}
    (h : schema.LoopsTo index m₁ ⟨ps₁, (st.reader.goTo x st.reader.depth).comma⟩ m' st' first r)
    (hread : schema.readFields index m st
      = schema.readFields index m₁ ⟨ps₁, (st.reader.goTo x st.reader.depth).comma⟩)
    (hr : r.length ≤ x.length) (hx : x.length ≤ st.reader.rest.length) :
    schema.LoopsTo index m st m' st' first r := by
  refine ⟨hread.trans h.read, h.typed, h.clean, h.atLoop, h.depth, fun r' d hr' => ?_⟩
  rw [h.goTo r' d hr', Reader.goTo_comma, Reader.goTo_goTo hx (le_trans hr' hr)]

/-- Members that all convert are assigned, and the loop goes on after them. -/
theorem readFields_front (front : Members NumberLiteral StringLiteral) (first : Bool) (index : Nat)
    (m : Message) (st : Session) (r : List UInt8)
    (h : st.reader.AtLoop first (front.bytes first ++ r)) (hr : front.isNil = false → StopsItem r)
    (hall : (front.assignments schema st.reader.options st.reader.depth index).all
      Option.isSome = true)
    (hm : m.OfType schema index) (hps : st.pools.Clean schema) :
    ∃ (m' : Message) (st' : Session),
      schema.LoopsTo index m st m' st' (first && front.isNil) r ∧
      m' = assignAll (front.assignments schema st.reader.options st.reader.depth index) m := by
  cases front with
  | nil =>
    refine ⟨m, st, ⟨rfl, hm, hps, ?_, rfl, fun _ _ _ => rfl⟩, rfl⟩
    rw [Members.isNil, Bool.and_true]
    exact h
  | cons before key afterKey beforeValue v after rest =>
    rw [Members.bytes_cons_append] at h
    have hle := h.length_le
    simp only [List.length_append, List.length_cons] at hle
    obtain ⟨hat, hkey, -⟩ := h.key
    have hvalue := Reader.ahead_colon (s := st.reader) afterKey beforeValue
      (v.bytes ++ (after.bytes ++ (rest.bytes false ++ r))) st.reader.depth
    have hstop : StopsItem (rest.bytes false ++ r) := by
      cases rest with
      | nil => exact hr rfl
      | cons before' key' afterKey' beforeValue' v' after' rest' =>
        rw [Members.bytes_cons_append]
        exact ⟨ascii ',', _, rfl, .inl rfl⟩
    have hname : Quotation.text? st.reader.options.decodeEscapes key
        = some (key.text st.reader.options.decodeEscapes) := rfl
    rw [Members.isNil, Bool.and_false]
    cases hslot : (schema.messageType index).slot? (key.text st.reader.options.decodeEscapes) with
    | none =>
      obtain ⟨w, hw, hlen⟩ := skippable_json v after _ _ hvalue hstop
      rw [Members.assignments_unknown hname hslot] at hall ⊢
      rw [Reader.goTo_colon, Reader.goTo_goTo (by simp; omega) (by simp; omega)] at hw
      -- The rest is read from where the value that is passed ends.
      obtain ⟨m', st', hloops, hm'⟩ := readFields_front rest false index m
        ⟨st.pools, (st.reader.goTo (w.bytes ++ (rest.bytes false ++ r)) st.reader.depth).comma⟩ r
        (Reader.atLoop_comma w _ _) (fun _ => hr rfl) hall hm hps
      refine ⟨m', st', hloops.of_comma ?_ (by simp; omega) (by simp; omega), hm'⟩
      rw [readFields_unknown hat hkey hslot, hw]
      rfl
    | some slot =>
      rw [Members.assignments_known hname hslot, List.all_cons, Bool.and_eq_true] at hall
      obtain ⟨a, ha⟩ := Option.isSome_iff_exists.1 hall.1
      have hassign := readSlot_json schema index slot m v
        (st.moveTo (st.reader.goTo (afterKey.bytes ++ ascii ':' :: (beforeValue.bytes ++
          (v.bytes ++ (after.bytes ++ (rest.bytes false ++ r))))) st.reader.depth).colon)
        hvalue (hstop.endsRun.blanks after)
      have hsound := Call.sound schema (.slot index slot m
        (st.moveTo (st.reader.goTo (afterKey.bytes ++ ascii ':' :: (beforeValue.bytes ++
          (v.bytes ++ (after.bytes ++ (rest.bytes false ++ r))))) st.reader.depth).colon))
        (MessageType.slot?_isOf hslot) hm hps
      rw [Session.reader_moveTo, Reader.goTo_colon,
        Reader.goTo_goTo (by simp; omega) (by simp; omega)] at hassign
      simp only [Reader.options_colon, Reader.depth_colon, Reader.options_goTo, Reader.depth_goTo,
        ha] at hassign
      obtain ⟨m₁, ps₁, hread, hput⟩ := hassign
      rw [hread] at hsound
      obtain ⟨m', st', hloops, hm'⟩ := readFields_front rest false index m₁
        ⟨ps₁, (st.reader.goTo (after.bytes ++ (rest.bytes false ++ r)) st.reader.depth).comma⟩ r
        (Reader.atLoop_comma after _ _) (fun _ => hr rfl) hall.2 hsound.1 hsound.2
      refine ⟨m', st', hloops.of_comma ?_ (by simp; omega) (by simp; omega), ?_⟩
      · exact readFields_step hat hkey hslot hread
      · rw [Members.assignments_known hname hslot, ha, hm', hput hps]
        rfl

/-! ## A member that is inserted -/

/-- A member whose value may be any text. -/
structure RawMember where
  before : Blanks
  key : StringLiteral
  afterKey : Blanks
  value : List UInt8

/-- The text of an object with a member between the others, and the separators that this needs. -/
def insertedText (pad : Blanks) (front : Members NumberLiteral StringLiteral) (x : RawMember)
    (back : Members NumberLiteral StringLiteral) : List UInt8 :=
  ascii '{' :: (pad.bytes ++ front.bytes true ++ leadingComma front.isNil ++ x.before.bytes
    ++ Quotation.bytes x.key ++ x.afterKey.bytes ++ ascii ':' :: (x.value ++ back.bytes false
    ++ [ascii '}']))

variable {index : Nat} {options : ReadOptions} {m : Message} {ps : Pools} {lead pad : Blanks}
  {front back : Members NumberLiteral StringLiteral} {rest : List UInt8} {x : RawMember}

/-- The reader in front of the value of the member that is inserted. -/
def atInserted (options : ReadOptions) (lead pad : Blanks)
    (front : Members NumberLiteral StringLiteral) (x : RawMember)
    (back : Members NumberLiteral StringLiteral) (rest : List UInt8) : Reader :=
  (Reader.ofBytes (lead.bytes ++ insertedText pad front x back ++ rest) options).goTo
    (x.value ++ (back.bytes false ++ ascii '}' :: rest)) 1

/-- The loop over the members comes to the value that is inserted, with all assignments in front of
it made, and passes what it can. -/
theorem unmarshal_to_inserted (lead pad : Blanks) (back : Members NumberLiteral StringLiteral)
    (rest : List UInt8)
    (hfront : (front.assignments schema options 1 index).all Option.isSome = true)
    (hm : m.OfType schema index) (hps : ps.Clean schema)
    (hkey : (schema.messageType index).slot? (x.key.text options.decodeEscapes) = none) :
    ∃ (m' : Message) (ps' : Pools) (s : Reader),
      schema.unmarshal index (lead.bytes ++ insertedText pad front x back ++ rest) options m ps
        = schema.readFields index m' ⟨ps', s.skipValue.comma⟩ ∧
      m' = assignAll (front.assignments schema options 1 index) m ∧
      m'.OfType schema index ∧ ps'.Clean schema ∧
      s.Ahead (x.value ++ (back.bytes false ++ ascii '}' :: rest)) ∧
      s.goTo (x.value ++ (back.bytes false ++ ascii '}' :: rest)) s.depth
        = atInserted options lead pad front x back rest := by
  set tail := x.value ++ (back.bytes false ++ ascii '}' :: rest) with htail
  set loop := leadingComma front.isNil ++ (x.before.bytes ++ (Quotation.bytes x.key ++
    (x.afterKey.bytes ++ ascii ':' :: tail))) with hloop
  set s₀ := Reader.ofBytes (lead.bytes ++ insertedText pad front x back ++ rest) options with hs₀
  have hahead : s₀.Ahead (ascii '{' :: (pad.bytes ++ (front.bytes true ++ loop))) := by
    refine ⟨rfl, lead.bytes, .free lead, ?_⟩
    simp [hs₀, Reader.ofBytes, insertedText, hloop, htail]
  have hstop : front.isNil = false → StopsItem loop := by
    intro hnil
    rw [hloop, hnil]
    exact ⟨ascii ',', _, rfl, .inl rfl⟩
  -- The members in front are read first, and then the key of the one that is inserted.
  obtain ⟨m', st', ⟨hread, htype, hclean, hat, hdepth, hgo⟩, hm'⟩ :=
    readFields_front front true index m ⟨ps, s₀.goTo (pad.bytes ++ (front.bytes true ++ loop)) 1⟩
      loop (Reader.atLoop_open pad _ _) hstop hfront hm hps
  rw [Bool.true_and] at hat
  have hoptions : st'.reader.options = options := congrArg Reader.options (hgo [] 0 (by simp))
  obtain ⟨hclose, hstring, -⟩ := hat.key
  rw [hoptions] at hstring
  have hle := hahead.length_le
  have hloopLength : tail.length ≤ loop.length := by
    simp only [hloop, List.length_append, List.length_cons]
    omega
  simp only [List.length_append, List.length_cons] at hle
  refine ⟨m', st'.pools, (st'.reader.goTo (x.afterKey.bytes ++ ascii ':' :: tail)
    st'.reader.depth).colon, ?_, hm', htype, hclean, ?_, ?_⟩
  · rw [unmarshal, readMessage_eq]
    dsimp only
    rw [Reader.symbol_brace hahead (show 0 < 128 by decide)]
    dsimp only [Session.moveTo]
    rw [show s₀.depth + 1 = 1 from rfl, hread, readFields_unknown hclose hstring hkey]
    rfl
  · have hvalue := Reader.ahead_colon (s := st'.reader) x.afterKey .empty tail st'.reader.depth
    exact hvalue
  · have hlen := hat.length_le
    have hafter : (x.afterKey.bytes ++ ascii ':' :: tail).length ≤ loop.length := by
      simp only [hloop, List.length_append, List.length_cons]
      omega
    have hone : st'.reader.depth = 1 := hdepth
    rw [Reader.goTo_colon, Reader.depth_colon, Reader.depth_goTo,
      Reader.goTo_goTo (le_trans hafter hlen) (by simp; omega), hgo _ _ hloopLength, hone,
      Reader.goTo_goTo (by simp; omega) (by simp; omega)]
    rfl

theorem assignAll_append {as bs : List (Option Assignment)} (has : as.all Option.isSome = true)
    (hbs : bs.all Option.isSome = true) (m : Message) :
    assignAll (as ++ bs) m = assignAll bs (assignAll as m) := by
  have hall : (as ++ bs).all Option.isSome = true := by rw [List.all_append, has, hbs]; rfl
  rw [assignAll_eq_foldl hall, assignAll_eq_foldl has, assignAll_eq_foldl hbs,
    List.reduceOption_append, List.foldl_append]

/-- Where nothing is left of the value that is inserted, the object is read as without it. -/
theorem unmarshal_inserted
    (hfront : (front.assignments schema options 1 index).all Option.isSome = true)
    (hback : (back.assignments schema options 1 index).all Option.isSome = true)
    (hm : m.OfType schema index) (hps : ps.Clean schema)
    (hkey : (schema.messageType index).slot? (x.key.text options.decodeEscapes) = none)
    (hx : Balanced x.value)
    (hblank : (atInserted options lead pad front x back rest).LeavesBlank
      (back.bytes false ++ ascii '}' :: rest)) :
    ∃ st', schema.unmarshal index (lead.bytes ++ insertedText pad front x back ++ rest) options m ps
      = (.ok (), assignAll (front.assignments schema options 1 index
          ++ back.assignments schema options 1 index) m, st') := by
  obtain ⟨m', ps', s, hread, hm', htype, hclean, hahead, hgo⟩ :=
    unmarshal_to_inserted lead pad back rest hfront hm hps hkey
  obtain ⟨stop, r, htail, hstop⟩ := Reader.stopsItem_members back (.inl rfl) rest
  rw [htail] at hahead hblank
  have hoptions : s.options = options := congrArg Reader.options hgo
  have hdepth : s.depth = 1 := congrArg Reader.depth hgo
  rw [← hgo, htail, ← Reader.leavesBlank_ahead hahead] at hblank
  obtain ⟨w, hskip, -⟩ := Reader.skipValue_balanced hahead hx hstop hblank
  rw [← htail] at hskip
  -- The members after the one that is inserted are read as members after a comma.
  have hskips : back.Skip (fun _ => True) schema s.options index :=
    Members.skip_of_forall (fun _ => trivial) index back
  have hrest := readFields_tree (fun t _ => skippable_json t) back false index m'
    ⟨ps', (s.goTo (w.bytes ++ (back.bytes false ++ ascii '}' :: rest)) s.depth).comma⟩ rest
    (Reader.atLoop_comma w _ _) hskips
  dsimp only [Reader.options_comma, Reader.depth_comma, Reader.options_goTo,
    Reader.depth_goTo] at hrest
  rw [hdepth] at hskip
  rw [hoptions, hdepth, ← hskip] at hrest
  rw [hread, assignAll_append hfront hback, ← hm', ← hrest.1 ⟨htype, hclean⟩]
  have hok := hrest.ok_iff.2 hback
  exact ⟨_, Prod.ext hok rfl⟩

/-- Where something is left of it, the object is given up. -/
theorem unmarshal_leftover
    (hfront : (front.assignments schema options 1 index).all Option.isSome = true)
    (hm : m.OfType schema index) (hps : ps.Clean schema)
    (hkey : (schema.messageType index).slot? (x.key.text options.decodeEscapes) = none)
    (hx : Balanced x.value)
    (hblank : ¬ (atInserted options lead pad front x back rest).LeavesBlank
      (back.bytes false ++ ascii '}' :: rest)) :
    ∃ e m' st', schema.unmarshal index (lead.bytes ++ insertedText pad front x back ++ rest) options
      m ps = (.error e, m', st') := by
  obtain ⟨m', ps', s, hread, -, -, -, hahead, hgo⟩ :=
    unmarshal_to_inserted lead pad back rest hfront hm hps hkey
  obtain ⟨stop, r, htail, hstop⟩ := Reader.stopsItem_members back (.inl rfl) rest
  rw [htail] at hahead hblank
  rw [← hgo, htail, ← Reader.leavesBlank_ahead hahead] at hblank
  obtain ⟨w, b, y, hskip, hb, hcomma, hclose⟩ :=
    Reader.skipValue_leftover hahead hx hstop hblank
  have hrest : s.skipValue.comma.rest = w.bytes ++ b :: y := by rw [hskip]; rfl
  have htoken : s.skipValue.comma.token = none := by rw [hskip]; rfl
  obtain ⟨e, s₁, hstring⟩ :=
    Reader.string_missing_comma htoken rfl hrest hb hcomma hclose
  -- The loop announces a comma and looks for a key, and the byte that is next is neither.
  have hat : s.skipValue.comma.atSymbol (ascii '}') = false := by
    rw [Reader.atSymbol_eq w htoken hrest hb]
    exact beq_eq_false_iff_ne.2 fun h => hclose (.inl h)
  rw [hread, readFields_eq, if_neg (by simp [hat])]
  dsimp only
  rw [hstring]
  exact ⟨_, _, _, rfl⟩

/-- A text that is read makes the assignments of all its members. -/
theorem assigns_of_unmarshal {m' : Message} {st' : Session} {members : Members NumberLiteral
    StringLiteral} (hm : m.OfType schema index) (hps : ps.Clean schema)
    (hok : schema.unmarshal index (lead.bytes ++ (Tree.object pad members : Json).bytes ++ rest)
      options m ps = (.ok (), m', st')) :
    (members.assignments schema options 1 index).all Option.isSome = true ∧
      m' = assignAll (members.assignments schema options 1 index) m := by
  have hread := unmarshal_object schema (fun t _ => skippable_json t) index options m ps lead pad
    members rest (Members.skip_of_forall (fun _ => trivial) index members)
  rw [hok] at hread
  exact ⟨hread.ok_iff.1 rfl, hread.1 ⟨hm, hps⟩⟩

/-- A member of an unknown key, whose value is any balanced text, is without effect exactly if
nothing can be read from the value or nothing but blanks is left of it. -/
theorem unmarshal_insert_iff {m' : Message} {st' : Session} (hps : ps.Reachable schema)
    (hm : m.OfType schema index)
    (hok : schema.unmarshal index
      (lead.bytes ++ (Tree.object pad (front.append back) : Json).bytes ++ rest) options m ps
      = (.ok (), m', st'))
    (hkey : (schema.messageType index).slot? (x.key.text options.decodeEscapes) = none)
    (hx : Balanced x.value) :
    (∃ st'', schema.unmarshal index (lead.bytes ++ insertedText pad front x back ++ rest) options
        m ps = (.ok (), m', st'')) ↔
      (atInserted options lead pad front x back rest).LeavesBlank
        (back.bytes false ++ ascii '}' :: rest) := by
  obtain ⟨hall, hm'⟩ := assigns_of_unmarshal hm hps.clean hok
  rw [Members.assignments_append] at hall hm'
  rw [List.all_append, Bool.and_eq_true] at hall
  constructor
  · rintro ⟨st'', hinserted⟩
    by_contra hblank
    obtain ⟨e, m'', st'', herror⟩ := unmarshal_leftover hall.1 hm hps.clean hkey hx hblank
    rw [hinserted] at herror
    cases herror
  · intro hblank
    rw [hm']
    exact unmarshal_inserted hall.1 hall.2 hm hps.clean hkey hx hblank

/-- The member of a node that holds seven. -/
def sevenMember : Members NumberLiteral StringLiteral :=
  .cons .empty (.ofString "value") .empty .empty (.number (.ofInt 7)) .empty .nil

/-- A member of a key that no node has. -/
def unknownMember (value : String) : RawMember where
  before := .empty
  key := .ofString "x"
  afterKey := .empty
  value := Utf8.ofString value

theorem unmarshal_sevenMember : ∃ m' st', Example.schema.unmarshal 5
    (Blanks.empty.bytes ++ (Tree.object .empty (sevenMember.append .nil) : Json).bytes ++ []) {}
    (Example.schema.emptyMessage 5) (.ofSchema Example.schema) = (.ok (), m', st') := by
  have hread := unmarshal_object Example.schema (fun t _ => skippable_json t) 5 {}
    (Example.schema.emptyMessage 5) (.ofSchema Example.schema) .empty .empty
    (sevenMember.append .nil) [] (Members.skip_of_forall (fun _ => trivial) 5 _)
  have hall : ((sevenMember.append .nil).assignments Example.schema {} 1 5).all
      Option.isSome = true := by decide +kernel
  exact ⟨_, _, Prod.ext (hread.ok_iff.2 hall) rfl⟩

theorem reachable_ofSchema : (Pools.ofSchema Example.schema).Reachable Example.schema :=
  .start _ (Pools.idle_ofSchema Example.schema)

/-- A word that is cut off is passed. -/
theorem unmarshal_insert_iff_node :
    ∃ m' st' st'',
      Example.schema.unmarshal 5
        (Blanks.empty.bytes ++ (Tree.object .empty (sevenMember.append .nil) : Json).bytes ++ []) {}
        (Example.schema.emptyMessage 5) (.ofSchema Example.schema) = (.ok (), m', st') ∧
      ((Example.schema.messageType 5).slot? ((unknownMember "tru").key.text false) = none ∧
        Balanced (unknownMember "tru").value) ∧
      Example.schema.unmarshal 5
        (Blanks.empty.bytes ++ insertedText .empty sevenMember (unknownMember "tru") .nil ++ []) {}
        (Example.schema.emptyMessage 5) (.ofSchema Example.schema) = (.ok (), m', st'') := by
  obtain ⟨m', st', hok⟩ := unmarshal_sevenMember
  have hkey : (Example.schema.messageType 5).slot? ((unknownMember "tru").key.text false)
      = none := by decide +kernel
  have hx : Balanced (unknownMember "tru").value := by decide +kernel
  have hblank : (atInserted {} .empty .empty sevenMember (unknownMember "tru") .nil []).LeavesBlank
      (Members.bytes false (.nil : Members NumberLiteral StringLiteral) ++ [ascii '}']) := by
    intro v s₁ hread
    have herror : ∃ e s, (atInserted {} .empty .empty sevenMember (unknownMember "tru") .nil
        []).attempt = (.error e, s) := ⟨_, _, rfl⟩
    obtain ⟨e, s, herror⟩ := herror
    rw [herror] at hread
    cases hread
  obtain ⟨st'', hread⟩ :=
    (unmarshal_insert_iff reachable_ofSchema (emptyMessage_ofType 5) hok hkey hx).2 hblank
  exact ⟨m', st', st'', hok, ⟨hkey, hx⟩, hread⟩

/-- Of two words the second is left, and the object is given up. -/
theorem unmarshal_insert_two_words :
    (∃ m' st', Example.schema.unmarshal 5 (Utf8.ofString "\x7b\"value\":7\x7d") {}
        (Example.schema.emptyMessage 5) (.ofSchema Example.schema) = (.ok (), m', st')) ∧
      (Example.schema.messageType 5).slot? "x" = none ∧
      Balanced (Utf8.ofString "true false") ∧
      (∃ b ∈ Utf8.ofString "true false", isBlank b = false) ∧
      ∃ e m' st', Example.schema.unmarshal 5
        (Utf8.ofString "\x7b\"value\":7,\"x\":true false\x7d") {}
        (Example.schema.emptyMessage 5) (.ofSchema Example.schema) = (.error e, m', st') := by
  have hkey : (Example.schema.messageType 5).slot? ((unknownMember "true false").key.text false)
      = none := by decide +kernel
  have hx : Balanced (unknownMember "true false").value := by decide +kernel
  have hfront : (sevenMember.assignments Example.schema {} 1 5).all Option.isSome = true := by
    decide +kernel
  have hbefore : Utf8.ofString "\x7b\"value\":7\x7d"
      = Blanks.empty.bytes ++ (Tree.object .empty (sevenMember.append .nil) : Json).bytes
        ++ [] := by
    decide +kernel
  have hafter : Utf8.ofString "\x7b\"value\":7,\"x\":true false\x7d"
      = Blanks.empty.bytes ++ insertedText .empty sevenMember (unknownMember "true false") .nil
        ++ [] := by
    decide +kernel
  refine ⟨hbefore ▸ unmarshal_sevenMember, by decide +kernel, hx,
    ⟨ascii 't', by decide +kernel⟩, ?_⟩
  rw [hafter]
  apply unmarshal_leftover hfront (emptyMessage_ofType 5) reachable_ofSchema.clean hkey hx
  intro hblank
  obtain ⟨s₁, hread, hrest⟩ : ∃ s₁, (atInserted {} .empty .empty sevenMember
      (unknownMember "true false") .nil []).attempt = (.ok (.bool true), s₁) ∧
      s₁.rest = Utf8.ofString " false\x7d" := ⟨_, rfl, rfl⟩
  obtain ⟨w, hw⟩ := hblank _ _ hread
  -- The first byte of the second word is no blank.
  have hlast : w.bytes = Utf8.ofString " false" := by
    have happend : Utf8.ofString " false" ++ [ascii '}'] = w.bytes ++ [ascii '}'] :=
      hrest.symm.trans hw
    exact (List.append_cancel_right happend).symm
  have hbyte := w.blank (ascii 'f') (hlast ▸ by decide +kernel)
  revert hbyte
  decide

end Schema

end ProtoJson
