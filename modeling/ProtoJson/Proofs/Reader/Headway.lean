import ProtoJson.Proofs.Reader.Enclosure
import ProtoJson.Proofs.Reader.Rejection

/-!
# Headway of reads

However malformed the text is, a value takes bytes from it, or nothing but blanks stands between the
cursor and what ends an item. After an announced comma it always takes bytes. So the loops over the
items of an array and over the members of an object come to an end, and their rounds are paid for by
the bytes that they pass.
-/

namespace ProtoJson

/-! ## Where an item ends -/

/-- An item ends at the end of the input or in front of a comma or a closing bracket. -/
theorem drop_itemLength (d : Nat) (mode : QuoteMode) (bytes : List UInt8) :
    bytes.drop (itemLength 0 d mode bytes) = [] ∨
      StopsItem (bytes.drop (itemLength 0 d mode bytes)) := by
  induction bytes generalizing d mode with
  | nil => exact .inl List.drop_nil
  | cons b r ih =>
    rcases itemLength_ends_or_passes d mode b with ⟨hb, hends⟩ | ⟨d', mode', hpasses⟩
    · rw [hends]
      exact .inr ⟨b, r, rfl, hb⟩
    · rw [hpasses, itemLength_add, List.drop_succ_cons]
      exact ih d' mode'

namespace Reader

open Grammar

variable {s s' s₁ s₂ : Reader} {x : List UInt8}

/-! ## Bytes that are taken -/

theorem members_remaining_le (s : Reader) (ms : List (String × Value)) :
    (s.members ms).2.remaining ≤ s.remaining := (membersStep s ms).property

theorem items_remaining_le (s : Reader) (vs : List Value) :
    (s.items vs).2.remaining ≤ s.remaining := (itemsStep s vs).property

theorem chain_remaining_le {α β : Type} {r : Except SyntaxError α × Reader}
    {k : α → Reader → Except SyntaxError β × Reader}
    (hk : ∀ a s₁, (k a s₁).2.remaining ≤ s₁.remaining) :
    (chain r k).2.remaining ≤ r.2.remaining := by
  obtain ⟨e | a, s₁⟩ := r
  · exact Nat.le_refl _
  · exact hk a s₁

theorem container_remaining_le {α β : Type} {body : Reader → Except SyntaxError α × Reader}
    {f : α → β} (t : Token) (hbody : ∀ s, (body s).2.remaining ≤ s.remaining) :
    (chain (s.enter t) fun _ s₁ => chain (body s₁) fun a s₂ => (.ok (f a), s₂)).2.remaining
      ≤ s.remaining := by
  refine (chain_remaining_le fun _ s₁ => ?_).trans_eq (enter_remaining s t)
  exact (chain_remaining_le fun _ _ => Nat.le_refl _).trans (hbody s₁)

/-- An attempt at a value takes bytes if it succeeds. -/
theorem attempt_progress (s : Reader) : Progress s s.attempt := by
  rw [attempt_eq_chain]
  rcases hnext : s.nextToken with ⟨e | t, s₁⟩
  · exact ⟨(nextToken_progress hnext).2.1, fun _ h => by cases h⟩
  · have hlt : s₁.remaining < s.remaining := (nextToken_progress hnext).2.2 t rfl
    have hle : ∀ {r : Except SyntaxError Value × Reader}, r.2.remaining ≤ s₁.remaining →
        Progress s r := fun h => ⟨by omega, fun _ _ => by omega⟩
    dsimp only [chain]
    split
    · exact hle (container_remaining_le t fun s => members_remaining_le s [])
    · split
      · exact hle (container_remaining_le t fun s => items_remaining_le s [])
      · exact hle (Nat.le_refl _)

theorem advanced_attempt (ht : s.token = none) : ∃ x, Advanced s s.attempt.2 x := by
  obtain ⟨c, hc⟩ := exists_admits ht
  have habides : Abides c s s.attempt :=
    abides_attempt ht hc fun _ _ s₂ _ _ => ⟨keepsMembers s₂ [], keepsItems s₂ []⟩
  obtain ⟨x, hx, -⟩ := habides.stays
  exact ⟨x, hx⟩

theorem advanced_value (ht : s.token = none) : ∃ x, Advanced s s.value.2 x := by
  obtain ⟨c, hc⟩ := exists_admits ht
  obtain ⟨x, hx, -⟩ := stays_value ht hc
  exact ⟨x, hx⟩

theorem Advanced.offset_le (h : Advanced s s' x) : s.offset ≤ s'.offset := by
  rw [h.offset]
  omega

/-- Where less remains, the cursor has moved. -/
theorem Advanced.offset_lt (h : Advanced s s' x) (ht : s.token = none) (ht' : s'.token = none)
    (hlt : s'.remaining < s.remaining) : s.offset < s'.offset := by
  have hlen := congrArg List.length h.rest
  rw [List.length_append] at hlen
  simp only [remaining, ht, ht', Option.toList_none, List.length_nil] at hlt
  rw [h.offset]
  omega

/-! ## Blanks in front of a value -/

theorem nextToken_skipBlanks (ht : s.token = none) : s.skipBlanks.nextToken = s.nextToken := by
  have ht' : s.skipBlanks.token = none := ht
  rw [nextToken, nextToken, ht, ht']
  exact scan_skipBlanks s

/-- Blanks in front of a value may be passed beforehand. -/
theorem value_skipBlanks (ht : s.token = none) : s.skipBlanks.value = s.value := by
  have hattempt : s.skipBlanks.attempt = s.attempt := attempt_congr (nextToken_skipBlanks ht)
  obtain ⟨w, hw⟩ := advanced_skipBlanks s
  obtain ⟨x, hx⟩ := advanced_attempt (s := s.skipBlanks) ht
  rw [value_eq_attempt, value_eq_attempt, hattempt]
  rw [hattempt] at hx
  rcases hres : s.attempt with ⟨e | v, s₁⟩
  · rw [hres] at hx
    -- Recovery counts no brackets in the blanks.
    have hsame : s₁.openSince s.skipBlanks = s₁.openSince s := by
      have hunmarked : ∀ b ∈ w.bytes, IsUnmarked b := fun b hb =>
        (isInert_of_blank b (w.blank b hb)).toIsUnmarked
      rw [hx.openSince_eq, (hw.trans hx).openSince_eq, openBrackets_unmarked hunmarked]
    dsimp only
    rw [recoverFrom, recoverFrom, hsame]
    rfl
  · rfl

/-! ## What a value takes -/

/-- A value takes a byte that is no blank, or `null` takes the place of nothing but blanks, in front
of what ends an item. -/
theorem value_takes (ht : s.token = none) : ∃ x, Advanced s s.value.2 x ∧
    ((∃ b ∈ x, isBlank b = false) ∨ s.value.1 = .null ∧ (∀ b ∈ x, isBlank b = true) ∧
      (s.value.2.rest = [] ∨ StopsItem s.value.2.rest)) := by
  obtain ⟨x, hx⟩ := advanced_value ht
  refine ⟨x, hx, or_iff_not_imp_left.2 fun hnone => ?_⟩
  have hblank : ∀ b ∈ x, isBlank b = true := by simpa using hnone
  have hvalue := value_eq_attempt s
  rcases hres : s.attempt with ⟨e | v, s₁⟩ <;> rw [hres] at hvalue <;> rw [hvalue] at hx ⊢
  · exact ⟨rfl, hblank, drop_itemLength _ .outside s₁.rest⟩
  · -- A value that is read has taken more than the blanks in front of it.
    exfalso
    have hlt : s₁.remaining < s.skipBlanks.remaining := by
      have hprogress := attempt_progress s.skipBlanks
      rw [attempt_congr (nextToken_skipBlanks ht), hres] at hprogress
      exact hprogress.2 v rfl
    have hle : s.skipBlanks.rest.length ≤ s₁.rest.length := by
      rw [rest_skipBlanks, hx.rest, List.dropWhile_append_of_pos hblank]
      exact (List.dropWhile_sublist _).length_le
    have ht' : s.skipBlanks.token = none := ht
    simp only [remaining, ht', Option.toList_none, List.length_nil] at hlt
    omega

/-- After an announced comma, a value takes the next byte that is no blank. -/
theorem value_takes_next (ht : s.token = none) (hp : s.pending = some (ascii ',')) (w : Blanks)
    {b : UInt8} {r : List UInt8} (hrest : s.rest = w.bytes ++ b :: r) (hb : isBlank b = false) :
    s.offset + w.bytes.length < s.value.2.offset := by
  have hskip : s.skipBlanks = s.advance w.bytes.length := skipBlanks_eq w hrest hb
  have hfront : s.skipBlanks.rest = b :: r := by
    rw [hskip]
    simp [advance, hrest]
  have ht' : s.skipBlanks.token = none := ht
  obtain ⟨x, hx⟩ := advanced_value ht'
  have hpassed : Passed s.skipBlanks s.skipBlanks.value.2 := (valueStep s.skipBlanks).property
  have hlt := hx.offset_lt ht' (token_value ht') <| hpassed.2 hp <| by
    rw [peek?_eq .empty hfront hb]
    rfl
  rw [value_skipBlanks ht, hskip] at hlt
  exact hlt

/-! ## Rounds of the loops -/

/-- One round of the loop over the items of an array reads an item and announces a comma. There is
none in front of the closing bracket and none where nothing is left to read. -/
def itemRound (s : Reader) : Option Reader :=
  if s.atSymbol (ascii ']') then none
  else if s.peek?.isSome then some s.value.2.comma
  else none

/-- One round of the loop over the members of an object reads a key and a value and announces a
comma. There is none in front of the closing bracket and none where no key can be read. -/
def memberRound (s : Reader) : Option Reader :=
  if s.atSymbol (ascii '}') then none
  else
    match s.string with
    | (.error _, _) => none
    | (.ok _, s₁) => some s₁.colon.value.2.comma

/-- A loop with these rounds ends at the last reader after so many of them. -/
inductive Ends (round : Reader → Option Reader) : Nat → Reader → Reader → Prop where
  | stop {s : Reader} (h : round s = none) : Ends round 0 s s
  | next {n : Nat} {s s₁ s' : Reader} (h : round s = some s₁) (hs : Ends round n s₁ s') :
    Ends round (n + 1) s s'

theorem Ends.last {round : Reader → Option Reader} {n : Nat} (h : Ends round n s s') :
    round s' = none := by
  induction h with
  | stop h => exact h
  | next _ _ ih => exact ih

/-- The loop over items ends, and every item but one is paid for by bytes that it passes. -/
structure ItemsEnd (s : Reader) (before : List Value) (n : Nat) (s' : Reader)
    (after : List Value) : Prop where
  ends : Ends itemRound n s s'
  token : s'.token = none
  items : s.items before = s'.items after
  length : after.length = before.length + n
  offset : s.offset + n ≤ s'.offset + if s.pending = some (ascii ',') then 0 else 1

/-- The loop over members ends, and every member is paid for by bytes that it passes. -/
structure MembersEnd (s : Reader) (before : List (String × Value)) (n : Nat) (s' : Reader)
    (after : List (String × Value)) : Prop where
  ends : Ends memberRound n s s'
  members : s.members before = s'.members after
  offset : s.offset + n ≤ s'.offset

theorem itemRound_inv (h : s.itemRound = some s₁) :
    s.atSymbol (ascii ']') = false ∧ s.peek?.isSome = true ∧ s₁ = s.value.2.comma := by
  rw [itemRound] at h
  split at h
  · cases h
  · next hat =>
    split at h
    · next hpeek => exact ⟨by simpa using hat, hpeek, (Option.some.inj h).symm⟩
    · cases h

theorem memberRound_inv (h : s.memberRound = some s₁) : s.atSymbol (ascii '}') = false ∧
    ∃ key s₂, s.string = (.ok key, s₂) ∧ s₁ = s₂.colon.value.2.comma := by
  rw [memberRound] at h
  split at h
  · cases h
  · next hat =>
    split at h
    · cases h
    · next key s₂ hkey => exact ⟨by simpa using hat, key, s₂, hkey, (Option.some.inj h).symm⟩

theorem offset_value_le (ht : s.token = none) : s.offset ≤ s.value.2.offset := by
  obtain ⟨x, hx⟩ := advanced_value ht
  exact hx.offset_le

/-- Only the first item may take no bytes. -/
theorem offset_item (ht : s.token = none) (hpeek : s.peek?.isSome = true) :
    s.offset + 1 ≤ s.value.2.offset + if s.pending = some (ascii ',') then 0 else 1 := by
  split
  · next hp =>
    rcases blank_or_cons s.rest with ⟨w, hrest⟩ | ⟨w, b, r, hrest, hb⟩
    · rw [peek?, hrest, List.find?_eq_none.2 fun b hb => by simp [w.blank b hb]] at hpeek
      cases hpeek
    · have hlt := value_takes_next ht hp w hrest hb
      omega
  · have hle := offset_value_le ht
    omega

/-- A key takes bytes. -/
theorem offset_string {key : String} (ht : s.token = none) (h : s.string = (.ok key, s₁)) :
    s₁.token = none ∧ s.offset < s₁.offset := by
  obtain ⟨q, -, hgo, -⟩ := string_inv ht h
  have htoken : s₁.token = none := by
    rw [hgo]
    rfl
  obtain ⟨c, hc⟩ := exists_admits ht
  obtain ⟨x, hx, -⟩ := stays_string ht hc
  have hlt := (string_progress s).2 key (by rw [h])
  rw [h] at hx hlt
  exact ⟨htoken, hx.offset_lt ht htoken hlt⟩

theorem passesOn_ends : PassesOn (fun _ => True)
    (fun s ms => s.token = none → ∃ n s' after, MembersEnd s ms n s' after)
    (fun s vs => s.token = none → ∃ n s' after, ItemsEnd s vs n s' after) where
  value _ _ := trivial
  members s ms hin ht := by
    cases hround : s.memberRound with
    | none => exact ⟨0, s, ms, .stop hround, rfl, Nat.le_refl _⟩
    | some s₁ =>
      obtain ⟨hat, key, s₂, hkey, rfl⟩ := memberRound_inv hround
      obtain ⟨htoken, hlt⟩ := offset_string ht hkey
      have htoken' : s₂.colon.token = none := htoken
      obtain ⟨n, s', after, hend⟩ := (hin key s₂ hkey).2
        (Value.insertMember key s₂.colon.value.1 ms) (token_value htoken')
      refine ⟨n + 1, s', after, .next hround hend.ends, ?_, ?_⟩
      · rw [members_eq, if_neg (by simp [hat]), hkey]
        exact hend.members
      · -- The key pays for the member, whose value may take no bytes.
        have hle : s₂.offset ≤ s₂.colon.value.2.offset := offset_value_le htoken'
        have hoffset : s₂.colon.value.2.offset + n ≤ s'.offset := hend.offset
        omega
  items s vs hin ht := by
    cases hround : s.itemRound with
    | none => exact ⟨0, s, vs, .stop hround, ht, rfl, rfl, Nat.le_add_right _ _⟩
    | some s₁ =>
      obtain ⟨hat, hpeek, rfl⟩ := itemRound_inv hround
      obtain ⟨n, s', after, hend⟩ := (hin hpeek).2 (s.value.1 :: vs) (token_value ht)
      refine ⟨n + 1, s', after, .next hround hend.ends, hend.token, ?_, ?_, ?_⟩
      · rw [items_eq, if_neg (by simp [hat]), if_pos hpeek]
        exact hend.items
      · rw [hend.length, List.length_cons]
        omega
      · -- A comma is announced after the first item, so every other item takes bytes.
        have hoffset : s.value.2.offset + n ≤ s'.offset := hend.offset
        have hitem := offset_item ht hpeek
        omega

theorem exists_itemsEnd (ht : s.token = none) (before : List Value) :
    ∃ n s' after, ItemsEnd s before n s' after := passesOn_ends.items_all s before ht

theorem exists_membersEnd (ht : s.token = none) (before : List (String × Value)) :
    ∃ n s' after, MembersEnd s before n s' after := passesOn_ends.members_all s before ht

/-- Where the loop over items has ended, the array is closed or the end of the input is found. -/
theorem items_of_itemRound {after vs : List Value} (ht : s.token = none)
    (hlast : s.itemRound = none) (h : s.items after = (.ok vs, s')) :
    vs = after.reverse ∧ s.offset ≤ s'.offset := by
  rw [itemRound] at hlast
  rw [items_eq] at h
  split at h
  · next hat =>
    obtain ⟨s₁, hclose, hcloses⟩ := keeps_close (c := ascii '}') ht (.inr rfl) hat after.reverse
    obtain ⟨x, hx, -⟩ := hcloses.closed
    rw [hclose] at h
    cases h
    exact ⟨rfl, hx.offset_le⟩
  · next hat =>
    rw [if_neg hat] at hlast
    split at h
    · next hpeek =>
      rw [if_pos hpeek] at hlast
      cases hlast
    · cases h

/-- An array has at most one item more than bytes are taken for it. -/
theorem length_items {before vs : List Value} (ht : s.token = none)
    (h : s.items before = (.ok vs, s')) :
    s.offset + vs.length ≤ s'.offset + before.length + 1 := by
  obtain ⟨n, s₁, after, hend⟩ := exists_itemsEnd ht before
  rw [hend.items] at h
  obtain ⟨rfl, hle⟩ := items_of_itemRound hend.token hend.ends.last h
  have hoffset : s.offset + n ≤ s₁.offset + 1 := by
    have hoffset := hend.offset
    split at hoffset <;> omega
  rw [List.length_reverse, hend.length]
  omega

/-- However malformed the text is, a value makes headway. It takes a byte that is no blank, or
`null` takes the place of nothing but blanks, in front of what ends an item. After an announced
comma it takes the next byte that is no blank. So the loops over items and over members end. The
members are no more than the bytes that are taken for them, and the items are at most one more. -/
theorem value_headway (ht : s.token = none) :
    (∃ x, Advanced s s.value.2 x ∧
      ((∃ b ∈ x, isBlank b = false) ∨ s.value.1 = .null ∧ (∀ b ∈ x, isBlank b = true) ∧
        (s.value.2.rest = [] ∨ StopsItem s.value.2.rest))) ∧
    (s.pending = some (ascii ',') → ∀ (w : Blanks) (b : UInt8) (r : List UInt8),
      s.rest = w.bytes ++ b :: r → isBlank b = false →
        s.offset + w.bytes.length < s.value.2.offset) ∧
    (∀ before, ∃ n s' after, ItemsEnd s before n s' after) ∧
    (∀ before, ∃ n s' after, MembersEnd s before n s' after) ∧
    ∀ before vs s', s.items before = (.ok vs, s') →
      s.offset + vs.length ≤ s'.offset + before.length + 1 :=
  ⟨value_takes ht, fun hp w _ _ hrest hb => value_takes_next ht hp w hrest hb,
    exists_itemsEnd ht, exists_membersEnd ht, fun _ _ _ h => length_items ht h⟩

/-- A comma in place of an item, and then the bracket of an object. -/
def strayBrace : Reader :=
  { rest := Utf8.ofString " , \x7d]", offset := 1, pending := some (ascii ','), depth := 1 }

/-- The announced comma is taken, though no value follows it. -/
theorem value_headway_strayBrace :
    strayBrace.token = none ∧ strayBrace.offset + 1 < strayBrace.value.2.offset ∧
      ∃ n s' after, ItemsEnd strayBrace [] n s' after := by
  have htoken : strayBrace.token = none := rfl
  obtain ⟨-, hnext, hitems, -⟩ := value_headway htoken
  refine ⟨htoken, ?_, hitems []⟩
  exact hnext rfl ⟨Utf8.ofString " ", by decide +kernel⟩ (ascii ',') (Utf8.ofString " \x7d]")
    (by decide +kernel) (by decide)

end Reader

end ProtoJson
