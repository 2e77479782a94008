import ProtoJson.Reader.Progress

/-!
# Recovery

Where to go on after a value that could not be read: the brackets that were opened since its start
are closed first, and then the cursor stops in front of the next comma or closing bracket of the
container that the value stands in. Quotes hide everything up to the closing one.
-/

namespace ProtoJson

/-- Whether the bytes at hand stand in a string. -/
inductive QuoteMode where
  | outside
  | inside
  /-- After a backslash inside a string. -/
  | escaped
  deriving DecidableEq, Repr

/-- The mode after a byte inside a string. -/
def QuoteMode.afterInside (b : UInt8) : QuoteMode :=
  if b = ascii '\\' then .escaped else if b = ascii '"' then .outside else .inside

/-- The closing brackets that are still owed after `bytes`, innermost first. A closing bracket that
is not the innermost one owed counts for nothing. -/
def openBrackets (owed : List UInt8) : QuoteMode → List UInt8 → List UInt8
  | _, [] => owed
  | .escaped, _ :: r => openBrackets owed .inside r
  | .inside, b :: r => openBrackets owed (.afterInside b) r
  | .outside, b :: r =>
    if b = ascii '"' then openBrackets owed .inside r
    else if b = ascii '{' then openBrackets (ascii '}' :: owed) .outside r
    else if b = ascii '[' then openBrackets (ascii ']' :: owed) .outside r
    else if (b = ascii '}' ∨ b = ascii ']') ∧ owed.head? = some b then
      openBrackets owed.tail .outside r
    else openBrackets owed .outside r

/-- The number of bytes up to the end of the current item, where `depth` brackets are open within
it and `passed` bytes were counted before. -/
def itemLength (passed depth : Nat) : QuoteMode → List UInt8 → Nat
  | _, [] => passed
  | .escaped, _ :: r => itemLength (passed + 1) depth .inside r
  | .inside, b :: r => itemLength (passed + 1) depth (.afterInside b) r
  | .outside, b :: r =>
    if b = ascii '"' then itemLength (passed + 1) depth .inside r
    else if b = ascii '{' ∨ b = ascii '[' then itemLength (passed + 1) (depth + 1) .outside r
    else if b = ascii '}' ∨ b = ascii ']' then
      if depth = 0 then passed else itemLength (passed + 1) (depth - 1) .outside r
    else if b = ascii ',' ∧ depth = 0 then passed
    else itemLength (passed + 1) depth .outside r

theorem le_itemLength (passed depth : Nat) (mode : QuoteMode) (bytes : List UInt8) :
    passed ≤ itemLength passed depth mode bytes := by
  fun_induction itemLength passed depth mode bytes <;> omega

theorem itemLength_le (passed depth : Nat) (mode : QuoteMode) (bytes : List UInt8) :
    itemLength passed depth mode bytes ≤ passed + bytes.length := by
  fun_induction itemLength passed depth mode bytes <;> simp <;> omega

/-- A byte that ends no item is passed. -/
theorem itemLength_pos (depth : Nat) {b : UInt8} (r : List UInt8)
    (hc : b ≠ ascii ',') (hb : b ≠ ascii '}') (ha : b ≠ ascii ']') :
    0 < itemLength 0 depth .outside (b :: r) := by
  rw [itemLength]
  simp only [hc, hb, ha, false_and, or_self, if_false]
  split
  · exact le_itemLength 1 depth .inside r
  · split
    · exact le_itemLength 1 (depth + 1) .outside r
    · exact le_itemLength 1 depth .outside r

namespace Reader

/-- The brackets that were opened between `start` and the cursor and not closed. -/
def openSince (s start : Reader) : Nat :=
  (openBrackets [] .outside (start.rest.take (s.offset - start.offset))).length

/-- Passes what is left of a value that was begun at `start` and could not be read. -/
def recoverFrom (s start : Reader) : Reader :=
  { s.advance (itemLength 0 (s.openSince start) .outside s.rest) with
    token := none
    pending := none
    depth := start.depth }

theorem remaining_recoverFrom_le (s start : Reader) :
    (s.recoverFrom start).remaining ≤ s.remaining := by
  simp only [remaining, recoverFrom, advance, List.length_drop, Option.toList_none,
    List.length_nil]
  omega

theorem remaining_recoverFrom_lt {s : Reader} (start : Reader) {b : UInt8} {r : List UInt8}
    (hr : s.rest = b :: r) (hc : b ≠ ascii ',') (hb : b ≠ ascii '}') (ha : b ≠ ascii ']') :
    (s.recoverFrom start).remaining < s.remaining := by
  have := itemLength_pos (s.openSince start) r hc hb ha
  simp only [remaining, recoverFrom, advance, hr, List.length_drop, List.length_cons,
    Option.toList_none, List.length_nil]
  omega

end Reader

end ProtoJson
