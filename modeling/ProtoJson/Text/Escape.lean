import ProtoJson.Text.Ascii
import ProtoJson.Text.Utf8

/-!
# JSON string escapes

`escape` writes a text so that it can stand between quotes; `unescape?` reads every escape of
JSON, the eight two-character ones and `\u` with four hexadecimal digits. Its first argument says
what half of a surrogate pair stands for when the other half is missing: `some c` reads it as `c`,
and `none` refuses it.
-/

namespace ProtoJson.Escape

/-- `\u` and the four lower-case hexadecimal digits of `n`. -/
def unicode (n : Nat) : List Char :=
  ['\\', 'u', hexDigit (n / 4096 % 16), hexDigit (n / 256 % 16), hexDigit (n / 16 % 16),
    hexDigit (n % 16)]

/-- Quotes, backslashes, control characters and the two line separators U+2028 and U+2029 are
escaped; every other character stands for itself. -/
def escapeChar (c : Char) : List Char :=
  if c = '"' then ['\\', '"']
  else if c = '\\' then ['\\', '\\']
  else if c = '\n' then ['\\', 'n']
  else if c = '\r' then ['\\', 'r']
  else if c = '\t' then ['\\', 't']
  else if c.toNat < 0x20 || c = '\u2028' || c = '\u2029' then unicode c.toNat
  else [c]

/-- A text as it stands between quotes. -/
def escape (cs : List Char) : List Char := cs.flatMap escapeChar

/-- The ASCII bytes that stand for themselves. -/
def isPlainByte (b : UInt8) : Bool := 0x20 ≤ b && b != ascii '"' && b != ascii '\\'

/-- The escape of any other ASCII byte. -/
def escapeByte (b : UInt8) : List UInt8 :=
  if b = ascii '"' ∨ b = ascii '\\' then [ascii '\\', b]
  else if b = ascii '\n' then Utf8.ofString "\\n"
  else if b = ascii '\r' then Utf8.ofString "\\r"
  else if b = ascii '\t' then Utf8.ofString "\\t"
  else Utf8.ofString "\\u00" ++ [ascii (hexDigit (b.toNat / 16)), ascii (hexDigit (b.toNat % 16))]

/-- The characters that follow a backslash in a two-character escape, with what they mean. -/
def shortEscape? (c : Char) : Option Char :=
  if c = '"' then some '"'
  else if c = '\\' then some '\\'
  else if c = '/' then some '/'
  else if c = 'b' then some '\x08'
  else if c = 'f' then some '\x0c'
  else if c = 'n' then some '\n'
  else if c = 'r' then some '\r'
  else if c = 't' then some '\t'
  else none

/-- The number that four hexadecimal digits write, and what follows them. -/
def hex4? : List Char → Option (Nat × List Char)
  | a :: b :: c :: d :: r => do
    let a ← hexValue? a
    let b ← hexValue? b
    let c ← hexValue? c
    let d ← hexValue? d
    return (((a * 16 + b) * 16 + c) * 16 + d, r)
  | _ => none

/-- The high half of a surrogate pair. -/
def isHighSurrogate (n : Nat) : Bool := 0xD800 ≤ n && n ≤ 0xDBFF

/-- The low half of a surrogate pair. -/
def isLowSurrogate (n : Nat) : Bool := 0xDC00 ≤ n && n ≤ 0xDFFF

/-- The low half of a surrogate pair, written as an escape at the front of the text. -/
def lowSurrogate? : List Char → Option (Nat × List Char)
  | '\\' :: 'u' :: r =>
    match hex4? r with
    | some (n, r') => if isLowSurrogate n then some (n, r') else none
    | none => none
  | _ => none

/-- The character of the code unit `n`, where `r` is the text after its escape. A high half that
its low half follows takes both. -/
def ofUnit (lone : Option Char) (n : Nat) (r : List Char) : Option (Char × List Char) :=
  if isHighSurrogate n then
    match lowSurrogate? r with
    | some (m, r') => some (Char.ofNat (0x10000 + (n - 0xD800) * 1024 + (m - 0xDC00)), r')
    | none => lone.map fun c => (c, r)
  else if isLowSurrogate n then lone.map fun c => (c, r)
  else some (Char.ofNat n, r)

/-- The character of the escape whose backslash stands in front of the text, and what follows. -/
def escaped? (lone : Option Char) : List Char → Option (Char × List Char)
  | [] => none
  | c :: r =>
    if c = 'u' then (hex4? r).bind fun (n, r') => ofUnit lone n r'
    else (shortEscape? c).map fun e => (e, r)

theorem length_hex4? {cs r : List Char} {n : Nat} (h : hex4? cs = some (n, r)) :
    r.length < cs.length := by
  unfold hex4? at h
  split at h
  · simp only [Option.bind_eq_bind, Option.bind_eq_some_iff] at h
    obtain ⟨_, _, _, _, _, _, _, _, h⟩ := h
    simp only [Option.pure_def, Option.some.injEq, Prod.mk.injEq] at h
    simp only [← h.2, List.length_cons]
    omega
  · cases h

theorem length_lowSurrogate? {r r' : List Char} {m : Nat} (h : lowSurrogate? r = some (m, r')) :
    r'.length < r.length := by
  unfold lowSurrogate? at h
  split at h
  · split at h
    · next hh =>
      split at h
      · have := length_hex4? hh
        simp only [Option.some.injEq, Prod.mk.injEq] at h
        simp only [← h.2, List.length_cons]
        omega
      · cases h
    · cases h
  · cases h

theorem length_ofUnit_le {lone : Option Char} {n : Nat} {r r' : List Char} {c : Char}
    (h : ofUnit lone n r = some (c, r')) : r'.length ≤ r.length := by
  unfold ofUnit at h
  split at h
  · split at h
    · next hm =>
      have := length_lowSurrogate? hm
      simp only [Option.some.injEq, Prod.mk.injEq] at h
      simp only [← h.2]
      omega
    · simp only [Option.map_eq_some_iff, Prod.mk.injEq] at h
      obtain ⟨_, _, _, h⟩ := h
      simp [← h]
  · split at h
    · simp only [Option.map_eq_some_iff, Prod.mk.injEq] at h
      obtain ⟨_, _, _, h⟩ := h
      simp [← h]
    · simp only [Option.some.injEq, Prod.mk.injEq] at h
      simp [← h.2]

theorem length_escaped? {lone : Option Char} {cs r : List Char} {c : Char}
    (h : escaped? lone cs = some (c, r)) : r.length < cs.length := by
  cases cs with
  | nil => simp [escaped?] at h
  | cons a t =>
    simp only [escaped?] at h
    split at h
    · simp only [Option.bind_eq_some_iff] at h
      obtain ⟨⟨n, r'⟩, hn, h⟩ := h
      have h₁ := length_hex4? hn
      have h₂ : r.length ≤ r'.length := length_ofUnit_le h
      simp only [List.length_cons]
      omega
    · simp only [Option.map_eq_some_iff, Prod.mk.injEq] at h
      obtain ⟨_, _, _, h⟩ := h
      simp [← h]

/-- The text that an escaped text stands for. It fails on a backslash that starts no escape. -/
def unescape? (lone : Option Char) : List Char → Option (List Char)
  | [] => some []
  | c :: r =>
    if c = '\\' then
      match _h : escaped? lone r with
      | none => none
      | some (e, r') => (unescape? lone r').map (e :: ·)
    else (unescape? lone r).map (c :: ·)
termination_by cs => cs.length
decreasing_by
  all_goals simp only [List.length_cons]
  · have := length_escaped? ‹_›
    omega
  · omega

end ProtoJson.Escape
