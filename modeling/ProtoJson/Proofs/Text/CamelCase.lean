import Mathlib.Data.List.Basic
import ProtoJson.Proofs.Text.WordCase

/-!
# Snake case and camel case

Snake case shows where every word begins, and camel case only where a word begins with a letter. So
names of ASCII characters are the same in camel case just if they are the same in snake case without
the underscores in front of digits.
-/

namespace ProtoJson

/-- A text without underscores in front of digits. -/
def joinDigits : List Char → List Char
  | [] => []
  | c :: cs =>
    if c = '_' ∧ cs.head?.any Char.isDigit then joinDigits cs else c :: joinDigits cs

/-- A text with every capital spelled as an underscore and a small letter. -/
def breakCapitals (cs : List Char) : List Char :=
  cs.flatMap fun c => if c.isUpper then ['_', c.toLower] else [c]

/-- A text of ASCII characters. -/
def IsAscii (s : String) : Prop := ∀ c ∈ s.toList, c.toNat < 128

/-! ## Letters and digits -/

/-- A letter or a digit of ASCII. -/
structure IsAsciiWordChar (c : Char) : Prop where
  lt : c.toNat < 128
  isAlphanum : c.isAlphanum = true

namespace IsAsciiWordChar

variable {c : Char}

theorem of_forall (h : IsAsciiWordChar c) (p : Char → Prop)
    (hp : ∀ n < 128, (Char.ofNat n).isAlphanum = true → p (Char.ofNat n)) : p c := by
  have hc := hp c.toNat h.lt
  rw [Char.ofNat_toNat] at hc
  exact hc h.isAlphanum

theorem toLower_ne (h : IsAsciiWordChar c) : c.toLower ≠ '_' :=
  h.of_forall (fun c => c.toLower ≠ '_') (by decide +kernel)

theorem isDigit_toLower (h : IsAsciiWordChar c) : c.toLower.isDigit = c.isDigit :=
  h.of_forall (fun c => c.toLower.isDigit = c.isDigit) (by decide +kernel)

theorem isUpper_toLower (h : IsAsciiWordChar c) : c.toLower.isUpper = false :=
  h.of_forall (fun c => c.toLower.isUpper = false) (by decide +kernel)

theorem isUpper_toUpper (h : IsAsciiWordChar c) : c.toUpper.isUpper = !c.isDigit :=
  h.of_forall (fun c => c.toUpper.isUpper = !c.isDigit) (by decide +kernel)

theorem toLower_toUpper (h : IsAsciiWordChar c) : c.toUpper.toLower = c.toLower :=
  h.of_forall (fun c => c.toUpper.toLower = c.toLower) (by decide +kernel)

theorem toUpper_toLower (h : IsAsciiWordChar c) : c.toLower.toUpper = c.toUpper :=
  h.of_forall (fun c => c.toLower.toUpper = c.toUpper) (by decide +kernel)

theorem toUpper_of_isDigit (h : IsAsciiWordChar c) (hc : c.isDigit = true) :
    c.toUpper = c.toLower :=
  h.of_forall (fun c => c.isDigit = true → c.toUpper = c.toLower) (by decide +kernel) hc

end IsAsciiWordChar

theorem isAsciiWordChar_of_mem_words {name : String} {w : List Char} {c : Char} (h : IsAscii name)
    (hw : w ∈ words name.toList) (hc : c ∈ w) : IsAsciiWordChar c where
  lt := h c (of_mem_words hw hc).1
  isAlphanum := isWordChar_of_mem_words hw hc (h c (of_mem_words hw hc).1)

/-! ## Words -/

/-- A word of small letters, behind an underscore unless it begins with a digit. -/
def joinedWord (w : List Char) : List Char :=
  if w.head?.any Char.isDigit then w.map Char.toLower else '_' :: w.map Char.toLower

section

variable {w : List Char}

theorem lowerWord_of_ascii (h : ∀ c ∈ w, IsAsciiWordChar c) :
    lowerWord w = w.map Char.toLower := by
  fun_induction lowerWord w with
  | case1 => rfl
  | case2 => exact absurd (h 'Σ' List.mem_cons_self).lt (by decide)
  | case3 c hc =>
    rw [lowercase, if_pos (h c List.mem_cons_self).lt]
    rfl
  | case4 c next rest ih =>
    rw [lowercase, if_pos (h c List.mem_cons_self).lt,
      ih fun d hd => h d (List.mem_cons_of_mem c hd)]
    rfl

theorem capitalWord_of_ascii {c : Char} (h : ∀ d ∈ c :: w, IsAsciiWordChar d) :
    capitalWord (c :: w) = c.toUpper :: w.map Char.toLower := by
  rw [capitalWord, uppercase, if_pos (h c List.mem_cons_self).lt,
    lowerWord_of_ascii fun d hd => h d (List.mem_cons_of_mem c hd)]
  rfl

/-! ## From snake case to camel case -/

theorem joinDigits_append (h : ∀ c ∈ w, IsAsciiWordChar c) (r : List Char) :
    joinDigits (w.map Char.toLower ++ r) = w.map Char.toLower ++ joinDigits r := by
  induction w with
  | nil => rfl
  | cons c w ih =>
    have hc := (h c List.mem_cons_self).toLower_ne
    rw [List.map_cons, List.cons_append, joinDigits, if_neg fun hu => hc hu.1,
      ih fun d hd => h d (List.mem_cons_of_mem c hd), List.cons_append]

theorem joinDigits_underscore (h : ∀ c ∈ w, IsAsciiWordChar c) (hne : w ≠ []) (r : List Char) :
    joinDigits ('_' :: (w.map Char.toLower ++ r)) = joinedWord w ++ joinDigits r := by
  have hhead : (w.map Char.toLower ++ r).head?.any Char.isDigit = w.head?.any Char.isDigit := by
    cases w with
    | nil => exact absurd rfl hne
    | cons c w => exact (h c List.mem_cons_self).isDigit_toLower
  rw [joinDigits, joinedWord, hhead, joinDigits_append h]
  cases w.head?.any Char.isDigit <;> simp

theorem defaultJsonChars_append (h : ∀ c ∈ w, IsAsciiWordChar c) (r : List Char) :
    defaultJsonChars false (w.map Char.toLower ++ r)
      = w.map Char.toLower ++ defaultJsonChars false r := by
  induction w with
  | nil => rfl
  | cons c w ih =>
    have hc := (h c List.mem_cons_self).toLower_ne
    rw [List.map_cons, List.cons_append, defaultJsonChars, if_neg hc, if_neg (by decide),
      ih fun d hd => h d (List.mem_cons_of_mem c hd), List.cons_append]

/-- The first character is in upper case. -/
theorem defaultJsonChars_true (h : ∀ c ∈ w, IsAsciiWordChar c) (hne : w ≠ []) (r : List Char) :
    defaultJsonChars true (w.map Char.toLower ++ r)
      = capitalWord w ++ defaultJsonChars false r := by
  obtain ⟨c, w, rfl⟩ := List.exists_cons_of_ne_nil hne
  have hc := h c List.mem_cons_self
  rw [capitalWord_of_ascii h, List.map_cons, List.cons_append, defaultJsonChars,
    if_neg hc.toLower_ne, if_pos rfl, hc.toUpper_toLower,
    defaultJsonChars_append fun d hd => h d (List.mem_cons_of_mem c hd), List.cons_append]

/-- A word that begins with a digit is the same in both cases. -/
theorem capitalWord_of_isDigit (h : ∀ c ∈ w, IsAsciiWordChar c)
    (hdigit : w.head?.any Char.isDigit = true) : capitalWord w = w.map Char.toLower := by
  cases w with
  | nil => rfl
  | cons c w =>
    rw [capitalWord_of_ascii h, List.map_cons,
      (h c List.mem_cons_self).toUpper_of_isDigit hdigit]

theorem defaultJsonChars_joinedWord (h : ∀ c ∈ w, IsAsciiWordChar c) (hne : w ≠ [])
    (raised : Bool) (r : List Char) : defaultJsonChars raised (joinedWord w ++ r)
      = capitalWord w ++ defaultJsonChars false r := by
  unfold joinedWord
  split
  · next hdigit =>
    cases raised with
    | true => exact defaultJsonChars_true h hne r
    | false => rw [defaultJsonChars_append h, capitalWord_of_isDigit h hdigit]
  · rw [List.cons_append, defaultJsonChars, if_pos rfl, defaultJsonChars_true h hne]

/-- Underscores at the beginning only raise what follows. -/
theorem defaultJsonChars_dropWhile (cs : List Char) :
    defaultJsonChars true (cs.dropWhile (· = '_')) = defaultJsonChars true cs := by
  induction cs with
  | nil => rfl
  | cons c cs ih =>
    by_cases hc : c = '_'
    · rw [List.dropWhile_cons_of_pos (by simpa using hc), ih, defaultJsonChars, if_pos hc]
    · rw [List.dropWhile_cons_of_neg (by simpa using hc)]

/-! ## From camel case to snake case -/

theorem breakCapitals_map_toLower (h : ∀ c ∈ w, IsAsciiWordChar c) :
    breakCapitals (w.map Char.toLower) = w.map Char.toLower := by
  rw [breakCapitals, List.flatMap_map, List.map_eq_flatMap]
  refine List.flatMap_congr fun c hc => ?_
  rw [(h c hc).isUpper_toLower]
  rfl

/-- Where a word begins with a letter, its capital tells. -/
theorem breakCapitals_capitalWord (h : ∀ c ∈ w, IsAsciiWordChar c) (hne : w ≠ []) :
    breakCapitals (capitalWord w) = joinedWord w := by
  unfold joinedWord
  split
  · next hdigit => rw [capitalWord_of_isDigit h hdigit, breakCapitals_map_toLower h]
  · next hletter =>
    obtain ⟨c, w, rfl⟩ := List.exists_cons_of_ne_nil hne
    have hc := h c List.mem_cons_self
    have hrest := breakCapitals_map_toLower fun d hd => h d (List.mem_cons_of_mem c hd)
    have hupper : c.toUpper.isUpper = true := by
      rw [hc.isUpper_toUpper]
      simpa using hletter
    rw [breakCapitals] at hrest ⊢
    rw [capitalWord_of_ascii h, List.flatMap_cons, hrest, if_pos hupper, hc.toLower_toUpper]
    rfl

end

/-! ## Names -/

section

variable {ws : List (List Char)} (h : ∀ w ∈ ws, w ≠ [] ∧ ∀ c ∈ w, IsAsciiWordChar c)

include h

theorem joinDigits_flatMap :
    joinDigits (ws.flatMap fun w => '_' :: w.map Char.toLower) = ws.flatMap joinedWord := by
  induction ws with
  | nil => rfl
  | cons w ws ih =>
    obtain ⟨hne, hw⟩ := h w List.mem_cons_self
    rw [List.flatMap_cons, List.cons_append, joinDigits_underscore hw hne,
      ih fun v hv => h v (List.mem_cons_of_mem w hv), List.flatMap_cons]

theorem defaultJsonChars_flatMap (raised : Bool) :
    defaultJsonChars raised (ws.flatMap joinedWord) = ws.flatMap capitalWord := by
  induction ws generalizing raised with
  | nil => rfl
  | cons w ws ih =>
    obtain ⟨hne, hw⟩ := h w List.mem_cons_self
    rw [List.flatMap_cons, defaultJsonChars_joinedWord hw hne,
      ih fun v hv => h v (List.mem_cons_of_mem w hv), List.flatMap_cons]

theorem breakCapitals_flatMap :
    breakCapitals (ws.flatMap capitalWord) = ws.flatMap joinedWord := by
  rw [breakCapitals, List.flatMap_assoc]
  exact List.flatMap_congr fun w hw => breakCapitals_capitalWord (h w hw).2 (h w hw).1

end

section

variable {name : String} (h : IsAscii name)

include h

theorem words_of_ascii {w : List Char} (hw : w ∈ words name.toList) :
    w ≠ [] ∧ ∀ c ∈ w, IsAsciiWordChar c :=
  ⟨ne_nil_of_mem_words hw, fun _ hc => isAsciiWordChar_of_mem_words h hw hc⟩

theorem joinDigits_snakeCase : joinDigits (snakeCase name).toList
    = ((words name.toList).flatMap joinedWord).dropWhile (· = '_') := by
  have hwords := fun w => words_of_ascii h (w := w)
  rw [snakeCase, String.toList_ofList, List.map_congr_left fun w hw =>
    lowerWord_of_ascii (hwords w hw).2]
  cases hname : words name.toList with
  | nil => rfl
  | cons w ws =>
    rw [hname] at hwords
    obtain ⟨hne, hw⟩ := hwords w List.mem_cons_self
    obtain ⟨c, w, rfl⟩ := List.exists_cons_of_ne_nil hne
    have hc := (hw c List.mem_cons_self).toLower_ne
    have hws := joinDigits_flatMap fun v hv => hwords v (List.mem_cons_of_mem _ hv)
    -- There is no underscore in front of the first word, whatever it begins with.
    rw [List.map_cons, intercalate_cons, List.flatMap_map, joinDigits_append hw, hws,
      List.flatMap_cons, joinedWord]
    split <;> simp [hc]

theorem defaultJsonChars_joinDigits :
    defaultJsonChars true (joinDigits (snakeCase name).toList) = (upperCamelCase name).toList := by
  rw [joinDigits_snakeCase h, defaultJsonChars_dropWhile,
    defaultJsonChars_flatMap fun w => words_of_ascii h, upperCamelCase, String.toList_ofList]

theorem dropWhile_breakCapitals :
    (breakCapitals (upperCamelCase name).toList).dropWhile (· = '_')
      = joinDigits (snakeCase name).toList := by
  rw [upperCamelCase, String.toList_ofList, breakCapitals_flatMap fun w => words_of_ascii h,
    joinDigits_snakeCase h]

end

/-- Names are the same in camel case just if they are the same in snake case without the underscores
in front of digits. -/
theorem upperCamelCase_eq_iff {v w : String} (hv : IsAscii v) (hw : IsAscii w) :
    upperCamelCase v = upperCamelCase w ↔
      joinDigits (snakeCase v).toList = joinDigits (snakeCase w).toList := by
  constructor
  · intro h
    rw [← dropWhile_breakCapitals hv, h, dropWhile_breakCapitals hw]
  · intro h
    refine String.toList_injective ?_
    rw [← defaultJsonChars_joinDigits hv, h, defaultJsonChars_joinDigits hw]

end ProtoJson
