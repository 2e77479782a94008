import ProtoJson.Proofs.Reader.Bounds
import ProtoJson.Proofs.Reader.Rendering

/-!
# Reading what was written

A value that is read keeps its members in order and is nested no deeper than the reader allows,
whatever the input is. So a value may be written and read again.
-/

namespace ProtoJson

open Grammar

namespace Value

/-- The members of the objects within a value are in order, and it is nested in no more than `n`
containers. -/
structure Fits (n : Nat) (v : Value) : Prop where
  ordered : v.Ordered
  nesting_le : v.nesting ≤ n

/-- The items of an array that is nested in no more than `n + 1` containers. -/
def ItemsFit (n : Nat) (vs : List Value) : Prop := ∀ v ∈ vs, v.Fits n

/-- The members of an object that is nested in no more than `n + 1` containers. -/
structure MembersFit (n : Nat) (ms : List (String × Value)) : Prop where
  ascending : Ascending ms
  within : ∀ m ∈ ms, m.2.Fits n

variable {n : Nat}

theorem ItemsFit.array {vs : List Value} (h : ItemsFit n vs) : (array vs).Fits (n + 1) where
  ordered := .array fun v hv => (h v hv).ordered
  nesting_le := Nat.succ_le_succ (itemsNesting_le_iff.2 fun v hv => (h v hv).nesting_le)

theorem MembersFit.object {ms : List (String × Value)} (h : MembersFit n ms) :
    (object ms).Fits (n + 1) where
  ordered := .object h.ascending fun m hm => (h.within m hm).ordered
  nesting_le := Nat.succ_le_succ (membersNesting_le_iff.2 fun m hm => (h.within m hm).nesting_le)

theorem ItemsFit.cons {v : Value} {vs : List Value} (hv : v.Fits n) (h : ItemsFit n vs) :
    ItemsFit n (v :: vs) := List.forall_mem_cons.2 ⟨hv, h⟩

theorem ItemsFit.nil : ItemsFit n [] := fun _ hv => by cases hv

theorem ItemsFit.reverse {vs : List Value} (h : ItemsFit n vs) : ItemsFit n vs.reverse :=
  fun v hv => h v (List.mem_reverse.1 hv)

theorem MembersFit.nil : MembersFit n [] := ⟨.nil, fun _ hm => by cases hm⟩

theorem MembersFit.insertMember {ms : List (String × Value)} (h : MembersFit n ms) (key : String)
    {v : Value} (hv : v.Fits n) : MembersFit n (insertMember key v ms) where
  ascending := h.ascending.insertMember key v
  within m hm := by
    rcases mem_insertMember hm with rfl | hm
    · exact hv
    · exact h.within m hm

end Value

namespace Reader

open Value

/-! ## Values that are read -/

/-- What a read gives, if it succeeds, has a property. -/
def Gives {α : Type} (P : α → Prop) (r : Except SyntaxError α × Reader) : Prop :=
  ∀ a, r.1 = .ok a → P a

variable {input : List UInt8} {s : Reader} {α : Type} {P : α → Prop}

theorem gives_error (e : SyntaxError) (s : Reader) : Gives P (.error e, s) := fun _ h => by cases h

theorem gives_ok {a : α} (h : P a) (s : Reader) : Gives P (.ok a, s) := by
  intro b hb
  cases hb
  exact h

theorem Gives.chain {β : Type} {r : Except SyntaxError β × Reader}
    {k : β → Reader → Except SyntaxError α × Reader}
    (h : ∀ b s₁, r = (.ok b, s₁) → Gives P (k b s₁)) : Gives P (chain r k) := by
  obtain ⟨e | b, s₁⟩ := r
  · exact gives_error e s₁
  · exact h b s₁ rfl

/-- A closing bracket ends a container with what it holds. -/
theorem gives_close {a : α} (h : P a) (s : Reader) (bracket : UInt8) :
    Gives P (s.close bracket a) := by
  rw [close, andThen_eq_chain]
  apply Gives.chain
  intro _ s₁ _
  exact gives_ok h s₁

/-- A value that opens no container fits anywhere. -/
theorem gives_tokenValue (s : Reader) (t : Token) (n : Nat) :
    Gives (Fits n) (s.tokenValue t, s) := by
  unfold tokenValue
  split
  · exact gives_ok ⟨.null, Nat.zero_le n⟩ s
  · next b _ => exact gives_ok ⟨.bool b, Nat.zero_le n⟩ s
  · next text _ =>
    cases t.binary? .double text with
    | error e => exact gives_error e s
    | ok x => exact gives_ok ⟨.number x, Nat.zero_le n⟩ s
  · next raw escaped _ =>
    cases t.text? s.options raw escaped with
    | error e => exact gives_error e s
    | ok text => exact gives_ok ⟨.string text, Nat.zero_le n⟩ s
  · exact gives_error _ s

/-- A container is nested one deeper than what it holds. -/
theorem gives_container {t : Token} {body : Reader → Except SyntaxError α × Reader}
    {Q : Nat → α → Prop} {f : α → Value} (h : s.Within input) (hnone : s.token = none)
    (ht : t.offset ≤ s.offset) (hf : ∀ n a, Q n a → (f a).Fits (n + 1))
    (hbody : ∀ s₁, s.enter t = (.ok (), s₁) → s₁.Within input →
      Gives (Q (maxDepth - s₁.depth)) (body s₁)) :
    Gives (Fits (maxDepth - s.depth)) (Reader.chain (s.enter t) fun _ s₁ =>
      Reader.chain (body s₁) fun a s₂ => (.ok (f a), s₂)) := by
  apply Gives.chain
  intro u s₁ hentered
  have hopened := (h.enter hnone ht).arrives hentered
  -- A container that is opened is one of those that may be.
  have hroom : maxDepth - s.depth = maxDepth - s₁.depth + 1 := by
    have hdepth := hopened.depth
    have hle := hopened.within.depth_le
    omega
  apply Gives.chain
  intro a s₂ hbodied
  have hq : Q (maxDepth - s₁.depth) a := hbody s₁ hentered hopened.within a (by rw [hbodied])
  rw [hroom]
  exact gives_ok (hf _ a hq) s₂

/-- An attempt at a value, where what the reads within the value give fits. -/
theorem gives_attempt (h : s.Within input)
    (hin : ∀ t s₁ s₂, s.nextToken = (.ok t, s₁) → s₁.enter t = (.ok (), s₂) →
      s₂.Within input → Gives (MembersFit (maxDepth - s₂.depth)) (s₂.members []) ∧
        Gives (ItemsFit (maxDepth - s₂.depth)) (s₂.items [])) :
    Gives (Fits (maxDepth - s.depth)) s.attempt := by
  obtain ⟨hnext, hspans⟩ := h.nextToken
  rw [attempt_eq_chain]
  apply Gives.chain
  intro t s₁ hres
  have htaken := hnext.arrives hres
  rw [hres] at hspans
  have ht : t.offset ≤ s₁.offset := (hspans t rfl).offset_le
  rw [← htaken.depth]
  split
  · apply gives_container htaken.within htaken.token ht fun n ms hms => MembersFit.object hms
    intro s₂ henter hwithin₂
    exact (hin t s₁ s₂ hres henter hwithin₂).1
  · split
    · apply gives_container htaken.within htaken.token ht fun n vs hvs => ItemsFit.array hvs
      intro s₂ henter hwithin₂
      exact (hin t s₁ s₂ hres henter hwithin₂).2
    · exact gives_tokenValue s₁ t _

/-- What the reads of a value give fits between the containers that are open and those that may
be. -/
theorem passesOn_fits (input : List UInt8) : PassesOn
    (fun s => s.Within input → s.value.1.Fits (maxDepth - s.depth))
    (fun s ms => s.Within input → MembersFit (maxDepth - s.depth) ms →
      Gives (MembersFit (maxDepth - s.depth)) (s.members ms))
    (fun s vs => s.Within input → ItemsFit (maxDepth - s.depth) vs →
      Gives (ItemsFit (maxDepth - s.depth)) (s.items vs)) where
  value s hin hs := by
    have hattempt : Gives (Fits (maxDepth - s.depth)) s.attempt := by
      apply gives_attempt hs
      intro t s₁ s₂ hres henter hwithin
      obtain ⟨hmembers, hitems⟩ := hin t s₁ s₂ hres henter
      exact ⟨hmembers hwithin .nil, hitems hwithin .nil⟩
    -- Where the attempt fails there is `null`, which fits anywhere.
    rw [value_eq_attempt]
    rcases hres : s.attempt with ⟨e | v, s₁⟩
    · exact ⟨.null, Nat.zero_le _⟩
    · exact hattempt v (by rw [hres])
  members s ms hin hs hms := by
    rw [members_eq_chain]
    split
    · exact gives_close hms s _
    · apply Gives.chain
      intro key s₁ hkey
      have hkeyed := hs.string.arrives hkey
      have hcolon : s₁.colon.Within input := hkeyed.separate (ascii ':')
      have hskips := hcolon.value
      have hcomma : s₁.colon.value.2.comma.Within input := hskips.separate (ascii ',')
      -- Behind the key, and behind the value, as many containers are open as before the key.
      have hdepth : s₁.colon.depth = s.depth := hkeyed.depth
      obtain ⟨hvalue, hmembers⟩ := hin key s₁ hkey
      have hv : s₁.colon.value.1.Fits (maxDepth - s.depth) := hdepth ▸ hvalue hcolon
      have hrest := hmembers (insertMember key s₁.colon.value.1 ms) hcomma
      rw [depth_comma, hskips.depth, hdepth] at hrest
      exact hrest (hms.insertMember key hv)
  items s vs hin hs hvs := by
    rw [items_eq]
    split
    · exact gives_close hvs.reverse s _
    · split
      · next hpeek =>
        have hskips := hs.value
        have hcomma : s.value.2.comma.Within input := hskips.separate (ascii ',')
        obtain ⟨hvalue, hitems⟩ := hin hpeek
        have hrest := hitems (s.value.1 :: vs) hcomma
        rw [depth_comma, hskips.depth] at hrest
        exact hrest (.cons (hvalue hs) hvs)
      · exact gives_error _ s

/-- Whatever the input is, the value that is read is in order and not too deep. -/
theorem fits_value_ofBytes (input : List UInt8) (options : ReadOptions) :
    (ofBytes input options).value.1.Fits 128 :=
  (passesOn_fits input).value_all _ (within_ofBytes input options)

/-! ## Values that are written and read -/

/-- A value that is written is read from its text, up to its end. -/
theorem value_bytes {v : Value} (ho : v.Ordered) (hf : v.Finite) (decodeBase64 : Bool) :
    (ofBytes v.bytes ⟨true, decodeBase64⟩).value = (v.cut 128,
      { options := ⟨true, decodeBase64⟩, rest := [], offset := v.bytes.length }) := by
  have h := value_front ⟨true, decodeBase64⟩ .empty v.tree endsValue_nil
  rw [Blanks.bytes_empty, List.nil_append, List.append_nil, ← bytes_eq_tree hf,
    meaning_tree v ho hf] at h
  exact h

/-- A value whose numbers are finite is written as one text of RFC 8259, which denotes it. From that
text it is read again, with `null` in place of what is nested in more than 128 containers, and
nothing is left. A value that is read from any input is not nested deeper, so it is read again as it
is. -/
theorem value_bytes_reads_back (decodeBase64 : Bool) :
    (∀ v : Value, v.Ordered → v.Finite →
      (∃ t : Json, t.bytes = v.bytes ∧ t.meaning true = v) ∧
      (∃ text : String, Utf8.toString? v.bytes = some text ∧ Utf8.ofString text = v.bytes) ∧
      (∃ s, (ofBytes v.bytes ⟨true, decodeBase64⟩).value = (v.cut 128, s) ∧
        s.offset = v.bytes.length ∧ s.rest = []) ∧
      (v.cut 128 = v ↔ v.nesting ≤ 128)) ∧
    ∀ (input : List UInt8) (v : Value), (ofBytes input ⟨true, decodeBase64⟩).value.1 = v →
      v.Finite → (ofBytes v.bytes ⟨true, decodeBase64⟩).value.1 = v := by
  constructor
  · intro v ho hf
    refine ⟨⟨v.tree, (bytes_eq_tree hf).symm, meaning_tree v ho hf⟩, ?_, ?_, ?_⟩
    · rw [bytes_eq_tree hf]
      exact v.tree.isText.toString?
    · exact ⟨_, value_bytes ho hf decodeBase64, rfl, rfl⟩
    · exact cut_eq_self_iff 128 v
  · intro input v hv hf
    obtain ⟨ho, hnesting⟩ := hv ▸ fits_value_ofBytes input ⟨true, decodeBase64⟩
    rw [value_bytes ho hf decodeBase64]
    exact (cut_eq_self_iff 128 v).2 hnesting

/-- Members that are not in order. -/
def disordered : List (String × Value) := [("b", .array [.number .zero]), ("a", .null)]

theorem ordered_finite_disordered (m : String × Value) (hm : m ∈ disordered) :
    m.2.Ordered ∧ m.2.Finite := by
  rcases List.mem_pair.1 hm with rfl | rfl
  · exact ⟨.array fun v hv => List.mem_singleton.1 hv ▸ .number _,
      .array fun v hv => List.mem_singleton.1 hv ▸ .number (by decide)⟩
  · exact ⟨.null, .null⟩

/-- Members are put in order when they are read. -/
theorem value_disordered :
    (ofBytes (Utf8.ofString "\x7b\"b\":[0],\"a\":null\x7d") ⟨true, false⟩).value.1
      = .object disordered.reverse := by
  have hbytes : Blanks.empty.bytes ++ (Value.object disordered).tree.bytes ++ []
      = Utf8.ofString "\x7b\"b\":[0],\"a\":null\x7d" := by decide +kernel
  have hmeaning : (Value.object disordered).tree.meaning true = .object disordered.reverse := by
    rw [tree, Tree.meaning, meaning_memberTrees _ (fun m hm => (ordered_finite_disordered m hm).1)
      fun m hm => (ordered_finite_disordered m hm).2]
    rfl
  have h := value_front ⟨true, false⟩ .empty (Value.object disordered).tree endsValue_nil
  rw [hbytes, hmeaning] at h
  rw [h]
  rfl

/-- The object that is read from members that are not in order. -/
theorem value_bytes_reads_back_disordered :
    ∃ v : Value, v.Ordered ∧ v.Finite ∧
      (∃ s, (ofBytes v.bytes ⟨true, false⟩).value = (v, s) ∧ s.offset = v.bytes.length) ∧
      (ofBytes (Utf8.ofString "\x7b\"b\":[0],\"a\":null\x7d") ⟨true, false⟩).value.1 = v ∧
      (ofBytes v.bytes ⟨true, false⟩).value.1 = v := by
  have ho : (Value.object disordered.reverse).Ordered :=
    .object (List.pairwise_pair.2 (by decide)) fun m hm =>
      (ordered_finite_disordered m (List.mem_reverse.1 hm)).1
  have hf : (Value.object disordered.reverse).Finite :=
    .object fun m hm => (ordered_finite_disordered m (List.mem_reverse.1 hm)).2
  obtain ⟨-, -, ⟨s, hs, hoffset, -⟩, hcut⟩ := (value_bytes_reads_back false).1 _ ho hf
  rw [hcut.2 (by decide)] at hs
  exact ⟨_, ho, hf, ⟨s, hs, hoffset⟩, value_disordered,
    (value_bytes_reads_back false).2 _ _ value_disordered hf⟩

end Reader

end ProtoJson
