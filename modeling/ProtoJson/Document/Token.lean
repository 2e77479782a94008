import ProtoJson.Document.Basic
import ProtoJson.Text.Utf8

/-!
# Tokens of a document

The lexical elements of JSON, taken strictly: no control characters and only the escapes of JSON in
strings, no leading zeros, and a digit after every point and every exponent mark.
-/

namespace ProtoJson

/-- A lexical element. -/
inductive DocumentToken where
  | openArray
  | closeArray
  | openObject
  | closeObject
  | comma
  | colon
  /-- A value without parts. -/
  | scalar (d : Document)
  | string (raw : List UInt8)

namespace DocumentToken

/-! ## Strings -/

/-- Whether a byte is a hexadecimal digit. -/
def isHexByte (b : UInt8) : Bool := (hexValue? (Char.ofNat b.toNat)).isSome

/-- Whether the byte after a backslash makes an escape of two characters. -/
def isShortEscape (b : UInt8) : Bool := b ∈ "\"\\/bfnrt".toList.map ascii

/-- The bytes up to the closing quote, and what follows it. -/
def stringBody? : List UInt8 → Option (List UInt8 × List UInt8)
  | [] => none
  | b :: r =>
    if b = ascii '"' then some ([], r)
    else if b < 0x20 then none
    else if b = ascii '\\' then
      match r with
      | [] => none
      | c :: r₁ =>
        if isShortEscape c then (stringBody? r₁).map fun (raw, rest) => (b :: c :: raw, rest)
        else if c = ascii 'u' then
          match r₁ with
          | h₁ :: h₂ :: h₃ :: h₄ :: r₂ =>
            if [h₁, h₂, h₃, h₄].all isHexByte then
              (stringBody? r₂).map fun (raw, rest) => (b :: c :: h₁ :: h₂ :: h₃ :: h₄ :: raw, rest)
            else none
          | _ => none
        else none
    else (stringBody? r).map fun (raw, rest) => (b :: raw, rest)

/-! ## Numbers -/

/-- The digits at the front of a text, and what follows them. -/
def digits (bs : List UInt8) : List Char × List UInt8 :=
  ((bs.takeWhile isDigitByte).map fun b => Char.ofNat b.toNat, bs.dropWhile isDigitByte)

/-- One digit or more at the front of a text. -/
def someDigits? (bs : List UInt8) : Option (List Char × List UInt8) :=
  match digits bs with
  | ([], _) => none
  | found => some found

/-- The digits before the point. Only a zero on its own starts with a zero. -/
def wholePart? (bs : List UInt8) : Option (List Char × List UInt8) :=
  match someDigits? bs with
  | some ('0' :: _ :: _, _) => none
  | found => found

/-- The digits after the point, if there is a point. -/
def fractionPart? : List UInt8 → Option (List Char × List UInt8)
  | [] => some ([], [])
  | b :: r => if b = ascii '.' then someDigits? r else some ([], b :: r)

/-- Whether an exponent is negative, and what follows its sign. -/
def exponentSign : List UInt8 → Bool × List UInt8
  | [] => (false, [])
  | b :: r =>
    if b = ascii '-' then (true, r) else if b = ascii '+' then (false, r) else (false, b :: r)

/-- The exponent, if there is one. -/
def exponentPart? : List UInt8 → Option (Option (Bool × List Char) × List UInt8)
  | [] => some (none, [])
  | b :: r =>
    if b = ascii 'e' ∨ b = ascii 'E' then
      let (negative, r) := exponentSign r
      (someDigits? r).map fun (ds, rest) => (some (negative, ds), rest)
    else some (none, b :: r)

/-- A number whose sign is known. -/
def unsigned? (negative : Bool) (bs : List UInt8) : Option (NumberText × List UInt8) := do
  let (whole, bs) ← wholePart? bs
  let (fraction, bs) ← fractionPart? bs
  let (exponent, bs) ← exponentPart? bs
  return (⟨negative, whole, fraction, exponent⟩, bs)

/-! ## All tokens -/

/-- What follows a word that the text must start with. -/
def afterWord? (word : String) (bs : List UInt8) : Option (List UInt8) :=
  let bytes := word.toList.map ascii
  if bytes.isPrefixOf bs then some (bs.drop bytes.length) else none

/-- The token that one byte makes. -/
def punctuation? (b : UInt8) : Option DocumentToken :=
  if b = ascii '[' then some openArray
  else if b = ascii ']' then some closeArray
  else if b = ascii '{' then some openObject
  else if b = ascii '}' then some closeObject
  else if b = ascii ',' then some comma
  else if b = ascii ':' then some colon
  else none

/-- The value without parts that starts with the byte `b`, strings apart, and what follows it. -/
def scalar? (b : UInt8) (r : List UInt8) : Option (Document × List UInt8) :=
  if b = ascii 'n' then (afterWord? "ull" r).map fun rest => (.null, rest)
  else if b = ascii 't' then (afterWord? "rue" r).map fun rest => (.bool true, rest)
  else if b = ascii 'f' then (afterWord? "alse" r).map fun rest => (.bool false, rest)
  else if b = ascii '-' then (unsigned? true r).map fun (n, rest) => (.number n, rest)
  else (unsigned? false (b :: r)).map fun (n, rest) => (.number n, rest)

/-- The token that starts with the byte `b`, and what follows it. -/
def ofByte? (b : UInt8) (r : List UInt8) : Option (DocumentToken × List UInt8) :=
  match punctuation? b with
  | some t => some (t, r)
  | none =>
    if b = ascii '"' then (stringBody? r).map fun (raw, rest) => (string raw, rest)
    else (scalar? b r).map fun (d, rest) => (scalar d, rest)

/-- The first token of a text after its blanks, and what follows it. -/
def next? (bs : List UInt8) : Option (DocumentToken × List UInt8) :=
  match bs.dropWhile isBlank with
  | [] => none
  | b :: r => ofByte? b r

/-! ## Progress -/

theorem length_stringBody? {bs raw rest : List UInt8} (h : stringBody? bs = some (raw, rest)) :
    rest.length < bs.length := by
  fun_induction stringBody? bs generalizing raw rest with
  | case2 r => simp_all
  | case5 _ _ _ _ _ ih | case6 _ _ _ _ _ _ _ _ _ ih | case10 _ _ _ _ _ ih =>
    simp only [Option.map_eq_some_iff, Prod.mk.injEq, Prod.exists] at h
    obtain ⟨_, _, h, _, rfl⟩ := h
    have := ih h
    simp only [List.length_cons]
    omega
  | _ => cases h

theorem length_someDigits? {bs rest : List UInt8} {ds : List Char}
    (h : someDigits? bs = some (ds, rest)) : rest.length < bs.length := by
  have hlen := congrArg List.length (List.takeWhile_append_dropWhile (p := isDigitByte) (l := bs))
  rw [List.length_append] at hlen
  unfold someDigits? digits at h
  split at h
  · cases h
  · next hne =>
    simp only [Option.some.injEq, Prod.mk.injEq] at h
    have hpos : (bs.takeWhile isDigitByte).length ≠ 0 := by
      intro h0
      exact hne _ (by rw [List.eq_nil_of_length_eq_zero h0]; rfl)
    rw [← h.2]
    omega

theorem length_wholePart? {bs rest : List UInt8} {ds : List Char}
    (h : wholePart? bs = some (ds, rest)) : rest.length < bs.length := by
  unfold wholePart? at h
  split at h
  · cases h
  · exact length_someDigits? h

theorem length_fractionPart?_le {bs rest : List UInt8} {ds : List Char}
    (h : fractionPart? bs = some (ds, rest)) : rest.length ≤ bs.length := by
  cases bs with
  | nil => simp_all [fractionPart?]
  | cons b r =>
    rw [fractionPart?] at h
    split at h
    · have := length_someDigits? h
      simp only [List.length_cons]
      omega
    · simp_all

theorem length_exponentSign_le (bs : List UInt8) : (exponentSign bs).2.length ≤ bs.length := by
  unfold exponentSign
  repeat' split
  all_goals simp

theorem length_exponentPart?_le {bs rest : List UInt8} {e : Option (Bool × List Char)}
    (h : exponentPart? bs = some (e, rest)) : rest.length ≤ bs.length := by
  cases bs with
  | nil => simp_all [exponentPart?]
  | cons b r =>
    rw [exponentPart?] at h
    split at h
    · simp only [Option.map_eq_some_iff, Prod.mk.injEq, Prod.exists] at h
      obtain ⟨_, _, h, _, rfl⟩ := h
      have h₁ := length_someDigits? h
      have h₂ := length_exponentSign_le r
      simp only [List.length_cons]
      omega
    · simp_all

theorem length_unsigned? {negative : Bool} {bs rest : List UInt8} {n : NumberText}
    (h : unsigned? negative bs = some (n, rest)) : rest.length < bs.length := by
  simp only [unsigned?, Option.bind_eq_bind, Option.bind_eq_some_iff, Option.pure_def,
    Option.some.injEq, Prod.mk.injEq, Prod.exists] at h
  obtain ⟨_, _, h₁, _, _, h₂, _, _, h₃, _, rfl⟩ := h
  have h₁ := length_wholePart? h₁
  have h₂ := length_fractionPart?_le h₂
  have h₃ := length_exponentPart?_le h₃
  omega

theorem length_afterWord?_le {word : String} {bs rest : List UInt8}
    (h : afterWord? word bs = some rest) : rest.length ≤ bs.length := by
  simp only [afterWord?] at h
  split at h
  · simp only [Option.some.injEq] at h
    rw [← h, List.length_drop]
    omega
  · cases h

theorem length_scalar?_le {b : UInt8} {r rest : List UInt8} {d : Document}
    (h : scalar? b r = some (d, rest)) : rest.length ≤ r.length := by
  unfold scalar? at h
  repeat' split at h
  all_goals
    simp only [Option.map_eq_some_iff, Prod.mk.injEq, Prod.exists] at h
  · obtain ⟨_, h, _, rfl⟩ := h
    exact length_afterWord?_le h
  · obtain ⟨_, h, _, rfl⟩ := h
    exact length_afterWord?_le h
  · obtain ⟨_, h, _, rfl⟩ := h
    exact length_afterWord?_le h
  · obtain ⟨_, _, h, _, rfl⟩ := h
    exact Nat.le_of_lt (length_unsigned? h)
  · obtain ⟨_, _, h, _, rfl⟩ := h
    exact Nat.lt_succ_iff.1 (length_unsigned? h)

theorem length_ofByte?_le {b : UInt8} {r rest : List UInt8} {t : DocumentToken}
    (h : ofByte? b r = some (t, rest)) : rest.length ≤ r.length := by
  unfold ofByte? at h
  split at h
  · simp_all
  · split at h
    all_goals
      simp only [Option.map_eq_some_iff, Prod.mk.injEq, Prod.exists] at h
      obtain ⟨_, _, h, _, rfl⟩ := h
    · exact Nat.le_of_lt (length_stringBody? h)
    · exact length_scalar?_le h

/-- A token takes at least the byte it starts with. -/
theorem length_next? {bs rest : List UInt8} {t : DocumentToken} (h : next? bs = some (t, rest)) :
    rest.length < bs.length := by
  unfold next? at h
  split at h
  · cases h
  · next b r heq =>
    have h₁ := length_ofByte?_le h
    have h₂ := (List.dropWhile_sublist isBlank (l := bs)).length_le
    rw [heq, List.length_cons] at h₂
    omega

end DocumentToken

end ProtoJson
