import ProtoJson.Proofs.Message.Writing

/-!
# The text of a value

A value of any shape is written as a text of RFC 8259 without blanks: the tree that is built here.
If the members of its objects are in order, the tree denotes the value. A text of RFC 8259 is UTF-8.
-/

namespace ProtoJson

open Grammar

/-! ## Texts in UTF-8 -/

namespace Utf8

/-- The bytes are those of a text. -/
def IsText (bytes : List UInt8) : Prop := ∃ cs, encode cs = bytes

theorem isText_encode (cs : List Char) : IsText (encode cs) := ⟨cs, rfl⟩

theorem IsText.append {x y : List UInt8} (hx : IsText x) (hy : IsText y) : IsText (x ++ y) := by
  obtain ⟨cs, rfl⟩ := hx
  obtain ⟨ds, rfl⟩ := hy
  exact ⟨cs ++ ds, encode_append cs ds⟩

/-- A byte of ASCII is a character. -/
theorem isText_byte (b : UInt8) (h : b.toNat < 0x80) : IsText [b] := by
  have key : ∀ b : UInt8, b.toNat < 0x80 → encode [Char.ofNat b.toNat] = [b] :=
    forall_byte (by decide +kernel)
  exact ⟨_, key b h⟩

theorem isText_of_ascii {bytes : List UInt8} (h : ∀ b ∈ bytes, b.toNat < 0x80) :
    IsText bytes := by
  induction bytes with
  | nil => exact isText_encode []
  | cons b bytes ih =>
    rw [List.forall_mem_cons] at h
    exact (isText_byte b h.1).append (ih h.2)

/-- A text may be taken as a string, whose bytes are those of the text. -/
theorem IsText.toString? {bytes : List UInt8} (h : IsText bytes) :
    ∃ text : String, toString? bytes = some text ∧ ofString text = bytes := by
  obtain ⟨cs, rfl⟩ := h
  refine ⟨String.ofList cs, ?_, ?_⟩
  · rw [Utf8.toString?, decode?_encode, Option.map_some]
  · rw [ofString, String.toList_ofList]

end Utf8

namespace Grammar

open Utf8

theorem Blanks.isText (w : Blanks) : IsText w.bytes := by
  have key : ∀ b : UInt8, isBlank b = true → b.toNat < 0x80 := forall_byte (by decide +kernel)
  exact isText_of_ascii fun b hb => key b (w.blank b hb)

theorem isText_leadingComma (first : Bool) : IsText (leadingComma first) := by
  cases first with
  | true => exact isText_encode []
  | false => exact isText_byte (ascii ',') (by decide)

theorem StringLiteral.isText (s : StringLiteral) : IsText (Quotation.bytes s) :=
  have hquote : IsText [ascii '"'] := isText_byte _ (by decide)
  hquote.append ((isText_encode s.source).append hquote)

mutual

/-- A text of RFC 8259 is UTF-8. -/
theorem Tree.isText (t : Json) : IsText t.bytes := by
  cases t with
  | null => exact isText_encode _
  | bool b => cases b <;> exact isText_encode _
  | number n => exact isText_encode n.chars
  | string s => exact s.isText
  | array pad items =>
    have hbody := (pad.isText.append (Items.isText items true)).append
      (isText_byte (ascii ']') (by decide))
    exact (isText_byte (ascii '[') (by decide)).append hbody
  | object pad members =>
    have hbody := (pad.isText.append (Members.isText members true)).append
      (isText_byte (ascii '}') (by decide))
    exact (isText_byte (ascii '{') (by decide)).append hbody

theorem Items.isText (items : Items NumberLiteral StringLiteral) (first : Bool) :
    IsText (items.bytes first) := by
  cases items with
  | nil => exact isText_encode []
  | cons before v after rest =>
    have hfront := ((isText_leadingComma first).append before.isText).append (Tree.isText v)
    exact (hfront.append after.isText).append (Items.isText rest false)

theorem Members.isText (members : Members NumberLiteral StringLiteral) (first : Bool) :
    IsText (members.bytes first) := by
  cases members with
  | nil => exact isText_encode []
  | cons before key afterKey beforeValue v after rest =>
    have hkey := (((isText_leadingComma first).append before.isText).append key.isText).append
      afterKey.isText
    have hvalue := ((beforeValue.isText.append (Tree.isText v)).append after.isText).append
      (Members.isText rest false)
    exact hkey.append ((isText_byte (ascii ':') (by decide)).append hvalue)

end

end Grammar

namespace Value

/-! ## Members in order -/

/-- The keys of the members are strictly ascending. -/
def Ascending (ms : List (String × Value)) : Prop := ms.Pairwise fun m m' => m.1 < m'.1

/-- The members of every object within a value are in ascending order of their keys. -/
inductive Ordered : Value → Prop where
  | null : Ordered null
  | bool (b : Bool) : Ordered (bool b)
  | number (x : Binary64) : Ordered (number x)
  | string (s : String) : Ordered (string s)
  | array {items : List Value} (within : ∀ v ∈ items, Ordered v) : Ordered (array items)
  | object {members : List (String × Value)} (ascending : Ascending members)
    (within : ∀ m ∈ members, Ordered m.2) : Ordered (object members)

/-- All numbers within a value are finite. -/
inductive Finite : Value → Prop where
  | null : Finite null
  | bool (b : Bool) : Finite (bool b)
  | number {x : Binary64} (finite : x.isFinite = true) : Finite (number x)
  | string (s : String) : Finite (string s)
  | array {items : List Value} (within : ∀ v ∈ items, Finite v) : Finite (array items)
  | object {members : List (String × Value)} (within : ∀ m ∈ members, Finite m.2) :
    Finite (object members)

theorem mem_insertMember {key : String} {v : Value} {m : String × Value}
    {ms : List (String × Value)} (h : m ∈ insertMember key v ms) : m = (key, v) ∨ m ∈ ms := by
  induction ms with
  | nil => exact .inl (List.mem_singleton.1 h)
  | cons first ms ih =>
    obtain ⟨k, w⟩ := first
    rw [insertMember] at h
    split at h
    · exact List.mem_cons.1 h
    · split at h
      · rcases List.mem_cons.1 h with rfl | h
        · exact .inl rfl
        · exact .inr (List.mem_cons_of_mem _ h)
      · rcases List.mem_cons.1 h with rfl | h
        · exact .inr List.mem_cons_self
        · exact (ih h).imp_right (List.mem_cons_of_mem _)

/-- A member is added where it belongs. -/
theorem Ascending.insertMember {ms : List (String × Value)} (h : Ascending ms) (key : String)
    (v : Value) : Ascending (insertMember key v ms) := by
  induction ms with
  | nil => exact List.pairwise_singleton _ _
  | cons first ms ih =>
    obtain ⟨k, w⟩ := first
    obtain ⟨hfirst, hrest⟩ := List.pairwise_cons.1 h
    rw [Value.insertMember]
    split
    · next hlt =>
      apply List.pairwise_cons.2
      refine ⟨fun m hm => ?_, h⟩
      rcases List.mem_cons.1 hm with rfl | hm
      · exact hlt
      · exact lt_trans hlt (hfirst m hm)
    · next hge =>
      split
      · next heq =>
        subst heq
        exact List.pairwise_cons.2 ⟨hfirst, hrest⟩
      · next hne =>
        apply List.pairwise_cons.2
        refine ⟨fun m hm => ?_, ih hrest⟩
        rcases mem_insertMember hm with rfl | hm
        · exact lt_of_le_of_ne (not_lt.1 hge) (Ne.symm hne)
        · exact hfirst m hm

/-- A member whose key comes after all others is added at the end. -/
theorem insertMember_last {key : String} {v : Value} {ms : List (String × Value)}
    (h : ∀ m ∈ ms, m.1 < key) : insertMember key v ms = ms ++ [(key, v)] := by
  induction ms with
  | nil => rfl
  | cons first ms ih =>
    obtain ⟨k, w⟩ := first
    have hk : k < key := h (k, w) List.mem_cons_self
    rw [insertMember, if_neg (lt_asymm hk), if_neg (ne_of_gt hk),
      ih fun m hm => h m (List.mem_cons_of_mem _ hm), List.cons_append]

/-- Members in order are added as they stand. -/
theorem addMembers_ascending {pairs ms : List (String × Value)} (h : Ascending (ms ++ pairs)) :
    addMembers pairs ms = ms ++ pairs := by
  induction pairs generalizing ms with
  | nil => exact (List.append_nil ms).symm
  | cons p pairs ih =>
    obtain ⟨key, v⟩ := p
    have hlast : ∀ m ∈ ms, m.1 < key := fun m hm =>
      (List.pairwise_append.1 h).2.2 m hm (key, v) List.mem_cons_self
    -- The first of the pairs goes to the members that are there, so `h` is to see it among them.
    rw [List.append_cons] at h ⊢
    show addMembers pairs (insertMember key v ms) = _
    rw [insertMember_last hlast, ih h]

/-- An object is made of its own members. -/
theorem membersOfList_ascending {ms : List (String × Value)} (h : Ascending ms) :
    membersOfList ms = ms := by
  have hnil : Ascending ([] ++ ms) := h
  exact addMembers_ascending hnil

/-! ## Depth -/

mutual

/-- The number of containers that are open at the innermost place of a value. -/
def nesting : Value → Nat
  | null | bool _ | number _ | string _ => 0
  | array items => itemsNesting items + 1
  | object members => membersNesting members + 1

/-- The nesting of the deepest item. -/
def itemsNesting : List Value → Nat
  | [] => 0
  | v :: vs => max v.nesting (itemsNesting vs)

/-- The nesting of the deepest member. -/
def membersNesting : List (String × Value) → Nat
  | [] => 0
  | (_, v) :: ms => max v.nesting (membersNesting ms)

end

theorem itemsNesting_le_iff {n : Nat} {vs : List Value} :
    itemsNesting vs ≤ n ↔ ∀ v ∈ vs, v.nesting ≤ n := by
  induction vs with
  | nil => simp [itemsNesting]
  | cons v vs ih => simp [itemsNesting, ih]

theorem membersNesting_le_iff {n : Nat} {ms : List (String × Value)} :
    membersNesting ms ≤ n ↔ ∀ m ∈ ms, m.2.nesting ≤ n := by
  induction ms with
  | nil => simp [membersNesting]
  | cons m ms ih => simp [membersNesting, ih]

mutual

/-- Nothing is cut from a value exactly if it is nested no deeper than that. -/
theorem cut_eq_self_iff (n : Nat) (v : Value) : v.cut n = v ↔ v.nesting ≤ n := by
  cases v with
  | array items =>
    cases n with
    -- Where no container may be open, an array is cut even if it is empty.
    | zero => simp [cut, nesting]
    | succ n => simp [cut, nesting, cutItems_eq_self_iff n items]
  | object members =>
    cases n with
    | zero => simp [cut, nesting]
    | succ n => simp [cut, nesting, cutMembers_eq_self_iff n members]
  | _ => simp [cut, nesting]

theorem cutItems_eq_self_iff (n : Nat) (vs : List Value) :
    cutItems n vs = vs ↔ itemsNesting vs ≤ n := by
  cases vs with
  | nil => simp [cutItems, itemsNesting]
  | cons v vs =>
    simp [cutItems, itemsNesting, cut_eq_self_iff n v, cutItems_eq_self_iff n vs]

theorem cutMembers_eq_self_iff (n : Nat) (ms : List (String × Value)) :
    cutMembers n ms = ms ↔ membersNesting ms ≤ n := by
  cases ms with
  | nil => simp [cutMembers, membersNesting]
  | cons m ms =>
    obtain ⟨key, v⟩ := m
    simp [cutMembers, membersNesting, cut_eq_self_iff n v, cutMembers_eq_self_iff n ms]

end

/-! ## Trees -/

mutual

/-- The text of a value as it is written. -/
def tree : Value → Json
  | null => .null
  | bool b => .bool b
  | number x => .number (.ofBinary x)
  | string s => .string (.ofString s)
  | array items => .array .empty (itemTrees items)
  | object members => .object .empty (memberTrees members)

/-- The items as they are written. -/
def itemTrees : List Value → Items NumberLiteral StringLiteral
  | [] => .nil
  | v :: vs => .bare v.tree (itemTrees vs)

/-- The members as they are written. -/
def memberTrees : List (String × Value) → Members NumberLiteral StringLiteral
  | [] => .nil
  | (key, v) :: ms => .bare key v.tree (memberTrees ms)

end

mutual

/-- The text of a value denotes it. -/
theorem meaning_tree (v : Value) (ho : v.Ordered) (hf : v.Finite) : v.tree.meaning true = v := by
  cases v with
  | null | bool b => rfl
  | number x =>
    cases hf with
    | number hx =>
      rw [tree, Tree.meaning, NumberLiteral.binary_ofBinary BinaryFormat.isInterchange_double hx]
  | string s =>
    have htext : (StringLiteral.ofString s).text true = s := StringLiteral.meaning_ofString s
    rw [tree, Tree.meaning, htext]
  | array items =>
    cases ho with
    | array ho =>
      cases hf with
      | array hf => rw [tree, Tree.meaning, meaning_itemTrees items ho hf]
  | object members =>
    cases ho with
    | object hascending ho =>
      cases hf with
      | object hf =>
        rw [tree, Tree.meaning, meaning_memberTrees members ho hf,
          membersOfList_ascending hascending]

theorem meaning_itemTrees (vs : List Value) (ho : ∀ v ∈ vs, v.Ordered) (hf : ∀ v ∈ vs, v.Finite) :
    (itemTrees vs).meaning true = vs := by
  cases vs with
  | nil => rfl
  | cons v vs =>
    rw [List.forall_mem_cons] at ho hf
    rw [itemTrees, Items.meaning, meaning_tree v ho.1 hf.1, meaning_itemTrees vs ho.2 hf.2]

theorem meaning_memberTrees (ms : List (String × Value)) (ho : ∀ m ∈ ms, m.2.Ordered)
    (hf : ∀ m ∈ ms, m.2.Finite) : (memberTrees ms).meaning true = ms := by
  cases ms with
  | nil => rfl
  | cons m ms =>
    obtain ⟨key, v⟩ := m
    rw [List.forall_mem_cons] at ho hf
    have htext : (StringLiteral.ofString key).text true = key :=
      StringLiteral.meaning_ofString key
    rw [memberTrees, Members.meaning, htext, meaning_tree v ho.1 hf.1,
      meaning_memberTrees ms ho.2 hf.2]

end

/-! ## The writer -/

mutual

/-- A value is written as its tree. -/
theorem toList_write (v : Value) (b : Buffer) (hf : v.Finite) :
    (v.write b).toList = b.toList ++ v.tree.bytes := by
  cases v with
  | null => exact b.toList_writeChars _
  | bool v => exact b.toList_writeBool v
  | number x =>
    cases hf with
    | number hx => exact Buffer.toList_writeBinary BinaryFormat.isInterchange_double b hx
  | string s => exact b.toList_writeQuoted s
  | array items =>
    cases hf with
    | array hf =>
      have hitems : (writeItems items (b.writeByte (ascii '['))).toList
          = b.toList ++ ascii '[' :: (itemTrees items).listing := by
        rw [toList_writeItems items _ hf, Buffer.toList_writeByte]
        simp
      have hclose := Buffer.toList_closeWith ']' hitems (by decide) (Items.listing_eq _)
      rw [write, ← Buffer.closeWith, hclose]
      simp [tree, Tree.bytes]
  | object members =>
    cases hf with
    | object hf =>
      have hmembers : (writeMembers members (b.writeByte (ascii '{'))).toList
          = b.toList ++ ascii '{' :: (memberTrees members).listing := by
        rw [toList_writeMembers members _ hf, Buffer.toList_writeByte]
        simp
      have hclose := Buffer.toList_closeWith '}' hmembers (by decide) (Members.listing_eq _)
      rw [write, ← Buffer.closeWith, hclose]
      simp [tree, Tree.bytes]

theorem toList_writeItems (vs : List Value) (b : Buffer) (hf : ∀ v ∈ vs, v.Finite) :
    (writeItems vs b).toList = b.toList ++ (itemTrees vs).listing := by
  cases vs with
  | nil => simp [writeItems, itemTrees, Items.listing]
  | cons v vs =>
    rw [List.forall_mem_cons] at hf
    rw [writeItems, toList_writeItems vs _ hf.2, Buffer.toList_writeByte, toList_write v b hf.1]
    simp [itemTrees, Items.listing]

theorem toList_writeMembers (ms : List (String × Value)) (b : Buffer)
    (hf : ∀ m ∈ ms, m.2.Finite) :
    (writeMembers ms b).toList = b.toList ++ (memberTrees ms).listing := by
  cases ms with
  | nil => simp [writeMembers, memberTrees, Members.listing]
  | cons m ms =>
    obtain ⟨key, v⟩ := m
    rw [List.forall_mem_cons] at hf
    rw [writeMembers, toList_writeMembers ms _ hf.2, Buffer.toList_writeByte,
      toList_write v _ hf.1, MapKey.toList_writeMember]
    simp [memberTrees, Members.listing, MapKey.text]

end

theorem bytes_eq_tree {v : Value} (hf : v.Finite) : v.bytes = v.tree.bytes := by
  rw [bytes, toList_write v .empty hf, Buffer.toList_empty, List.nil_append]

end Value

end ProtoJson
