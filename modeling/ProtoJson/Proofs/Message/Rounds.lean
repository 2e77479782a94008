import ProtoJson.Proofs.Message.Pools

/-!
# Rounds of the loops

A loop of the decoder that comes to its end without an error has closed its container or has read
one more member, element or entry. What one round reads is said here once, so that a proof about
loops that succeed need not look into them.
-/

namespace ProtoJson

/-- How the members of a message are read without an error. The object is closed, or a member that
no field has is passed, or a member is stored; then the other members are read. -/
inductive FieldsRead (schema : Schema) (index : Nat) (m : Message) (st : Session) :
    Message → Session → Prop where
  | closed {s : Reader} (hat : st.reader.atSymbol (ascii '}') = true)
    (hclose : st.reader.close (ascii '}') () = (.ok (), s)) :
    FieldsRead schema index m st m (st.moveTo s)
  | passed {key : String} {s : Reader} {m' : Message} {st' : Session}
    (hat : st.reader.atSymbol (ascii '}') = false) (hkey : st.reader.string = (.ok key, s))
    (hslot : (schema.messageType index).slot? key = none)
    (hrest : schema.readFields index m (st.moveTo s.colon.skipValue.comma) = (.ok (), m', st')) :
    FieldsRead schema index m st m' st'
  | stored {key : String} {s : Reader} {target : Slot} {m₁ m' : Message} {st₁ st' : Session}
    (hat : st.reader.atSymbol (ascii '}') = false) (hkey : st.reader.string = (.ok key, s))
    (hslot : (schema.messageType index).slot? key = some target)
    (hread : schema.readSlot index target m (st.moveTo s.colon) = (.ok (), m₁, st₁))
    (hrest : schema.readFields index m₁ (st₁.moveTo st₁.reader.comma) = (.ok (), m', st')) :
    FieldsRead schema index m st m' st'

/-- How the elements of a list are read without an error. -/
inductive ElementsRead (schema : Schema) (kind : Kind) (before : List Datum) (st : Session) :
    List Datum → Session → Prop where
  | closed {s : Reader} (hat : st.reader.atSymbol (ascii ']') = true)
    (hclose : st.reader.close (ascii ']') before.reverse = (.ok before.reverse, s)) :
    ElementsRead schema kind before st before.reverse (st.moveTo s)
  | element {d : Datum} {st₁ st' : Session} {ds : List Datum}
    (hat : st.reader.atSymbol (ascii ']') = false)
    (hread : schema.readDatum kind st = (.ok d, st₁))
    (hrest : schema.readElements kind (d :: before) (st₁.moveTo st₁.reader.comma)
      = (.ok ds, st')) :
    ElementsRead schema kind before st ds st'

/-- How the entries of a map are read without an error. -/
inductive EntriesRead (schema : Schema) (keyKind : KeyKind) (kind : Kind)
    (before : List (MapKey × Datum)) (st : Session) : List (MapKey × Datum) → Session → Prop where
  | closed {s : Reader} (hat : st.reader.atSymbol (ascii '}') = true)
    (hclose : st.reader.close (ascii '}') before = (.ok before, s)) :
    EntriesRead schema keyKind kind before st before (st.moveTo s)
  | entry {key : MapKey} {s : Reader} {d : Datum} {st₁ st' : Session}
    {es : List (MapKey × Datum)} (hat : st.reader.atSymbol (ascii '}') = false)
    (hkey : st.reader.mapKey keyKind = (.ok key, s))
    (hread : schema.readDatum kind (st.moveTo s.colon) = (.ok d, st₁))
    (hrest : schema.readEntries keyKind kind (insertEntry key d before).1
      ⟨recycleReplaced schema kind (insertEntry key d before).2 st₁.pools, st₁.reader.comma⟩
        = (.ok es, st')) :
    EntriesRead schema keyKind kind before st es st'

namespace Schema

variable {schema : Schema} {st st' : Session}

theorem readFields_ok_iff {index : Nat} {m m' : Message} :
    schema.readFields index m st = (.ok (), m', st') ↔ FieldsRead schema index m st m' st' := by
  rw [readFields_eq]
  constructor
  · intro h
    cases hat : st.reader.atSymbol (ascii '}') with
    | true =>
      rw [if_pos hat] at h
      dsimp only at h
      rcases hclose : st.reader.close (ascii '}') () with ⟨e | u, s⟩ <;> rw [hclose] at h
      · cases h
      · cases h
        exact .closed hat hclose
    | false =>
      rw [if_neg (by simp [hat])] at h
      rcases hkey : st.reader.string with ⟨e | key, s⟩ <;> rw [hkey] at h
      · cases h
      · dsimp only at h
        cases hslot : (schema.messageType index).slot? key with
        | none =>
          rw [hslot] at h
          exact .passed hat hkey hslot h
        | some target =>
          rw [hslot] at h
          dsimp only at h
          rcases hread : schema.readSlot index target m (st.moveTo s.colon) with
            ⟨e | u, m₁, st₁⟩ <;> rw [hread] at h
          · cases h
          · exact .stored hat hkey hslot hread h
  · intro h
    cases h with
    | closed hat hclose =>
      rw [if_pos hat, hclose]
      rfl
    | passed hat hkey hslot hrest =>
      rw [if_neg (by simp [hat]), hkey]
      dsimp only
      rw [hslot]
      exact hrest
    | stored hat hkey hslot hread hrest =>
      rw [if_neg (by simp [hat]), hkey]
      dsimp only
      rw [hslot]
      dsimp only
      rw [hread]
      exact hrest

theorem readElements_ok_iff {kind : Kind} {before ds : List Datum} :
    schema.readElements kind before st = (.ok ds, st') ↔
      ElementsRead schema kind before st ds st' := by
  rw [readElements_eq]
  constructor
  · intro h
    cases hat : st.reader.atSymbol (ascii ']') with
    | true =>
      rw [if_pos hat] at h
      dsimp only at h
      rcases hclose : st.reader.close (ascii ']') before.reverse with ⟨e | ds, s⟩ <;>
        rw [hclose] at h
      · cases h
      -- What the bracket closes is what was read before it.
      · obtain rfl : ds = before.reverse := Reader.of_close (by rw [hclose]; rfl)
        cases h
        exact .closed hat hclose
    | false =>
      rw [if_neg (by simp [hat])] at h
      rcases hread : schema.readDatum kind st with ⟨e | d, st₁⟩ <;> rw [hread] at h
      · cases h
      · exact .element hat hread h
  · intro h
    cases h with
    | closed hat hclose =>
      rw [if_pos hat, hclose]
      rfl
    | element hat hread hrest =>
      rw [if_neg (by simp [hat]), hread]
      exact hrest

theorem readEntries_ok_iff {keyKind : KeyKind} {kind : Kind} {before es : List (MapKey × Datum)} :
    schema.readEntries keyKind kind before st = (.ok es, st') ↔
      EntriesRead schema keyKind kind before st es st' := by
  rw [readEntries_eq]
  constructor
  · intro h
    cases hat : st.reader.atSymbol (ascii '}') with
    | true =>
      rw [if_pos hat] at h
      dsimp only at h
      rcases hclose : st.reader.close (ascii '}') before with ⟨e | es, s⟩ <;> rw [hclose] at h
      · cases h
      · obtain rfl : es = before := Reader.of_close (by rw [hclose]; rfl)
        cases h
        exact .closed hat hclose
    | false =>
      rw [if_neg (by simp [hat])] at h
      rcases hkey : st.reader.mapKey keyKind with ⟨e | key, s⟩ <;> rw [hkey] at h
      · cases h
      · dsimp only at h
        rcases hread : schema.readDatum kind (st.moveTo s.colon) with ⟨e | d, st₁⟩ <;>
          rw [hread] at h
        · cases h
        · exact .entry hat hkey hread h
  · intro h
    cases h with
    | closed hat hclose =>
      rw [if_pos hat, hclose]
      rfl
    | entry hat hkey hread hrest =>
      rw [if_neg (by simp [hat]), hkey]
      dsimp only
      rw [hread]
      exact hrest

end Schema

end ProtoJson
