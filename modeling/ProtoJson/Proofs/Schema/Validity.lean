import ProtoJson.Proofs.Schema.Names
import ProtoJson.Proofs.Text.CamelCase
import ProtoJson.Schema.Distinct

/-!
# Valid identifiers

What the language takes for an identifier: a name that is no word of the language, or such a word
behind `r#` if it may stand there. Marking what is reserved makes every name valid, but a change of
case drops the underscores in front of a name, and what is left may begin with a digit or have no
character at all. So an identifier is valid just if the first character of its name that is no
underscore is a letter.
-/

namespace ProtoJson

/-! ## Identifiers of the language -/

/-- The words that the language has for itself, those that it may use some day included. -/
def languageWords : List String :=
  -- words in use
  ["_", "as", "async", "await", "break", "const", "continue", "crate", "dyn", "else", "enum",
    "extern", "false", "fn", "for", "if", "impl", "in", "let", "loop", "match", "mod", "move",
    "mut", "pub", "ref", "return", "self", "Self", "static", "struct", "super", "trait", "true",
    "type", "unsafe", "use", "where", "while",
  -- words that are kept
    "abstract", "become", "box", "do", "final", "gen", "macro", "override", "priv", "try", "typeof",
    "unsized", "virtual", "yield"]

/-- The words of the language that are no identifiers behind `r#` either. -/
def neverRaw : List String := ["_", "crate", "self", "Self", "super"]

/-- A text of letters, digits and underscores of ASCII. -/
def IsWordText (s : String) : Prop := ∀ c ∈ s.toList, c.isAlphanum = true ∨ c = '_'

-- Looked for, an instance might try all characters there are.
instance (s : String) : Decidable (IsWordText s) :=
  List.decidableBAll (fun c : Char => c.isAlphanum = true ∨ c = '_') s.toList

/-- A text that begins like a name: with a letter or an underscore. -/
def BeginsName (s : String) : Prop := s.toList.head?.any (fun c => !c.isDigit) = true
deriving Decidable

/-- A name: letters, digits and underscores, of which the first is no digit. -/
def IsName (s : String) : Prop := IsWordText s ∧ BeginsName s
deriving Decidable

/-- A text that the language takes for an identifier. -/
inductive IsIdentifier : String → Prop where
  | plain {word : String} (name : IsName word) (free : word ∉ languageWords) : IsIdentifier word
  | raw {word : String} (mem : word ∈ languageWords) (free : word ∉ neverRaw) :
    IsIdentifier ("r#" ++ word)

/-- The first character that is no underscore is a letter. -/
def LetterFirst (s : String) : Prop := (s.toList.find? (· ≠ '_')).any Char.isAlpha = true
deriving Decidable

theorem mem_reservedWords_or_keywords :
    ∀ word ∈ languageWords, word ∈ reservedWords ∨ word ∈ keywords := by decide

/-- Marking a word makes it an identifier if it is a name. No mark makes a name of another text. -/
theorem isIdentifier_identifier_iff {word : String} (h : IsWordText word) :
    IsIdentifier (identifier word) ↔ IsName word := by
  unfold identifier
  split
  · next hreserved =>
    have key : ∀ w ∈ reservedWords, IsName (w ++ "_") ∧ w ++ "_" ∉ languageWords ∧ IsName w := by
      decide
    obtain ⟨hmarked, hfree, hname⟩ := key word hreserved
    exact ⟨fun _ => hname, fun _ => .plain hmarked hfree⟩
  next hreserved =>
  split
  · next hkeyword =>
    have key : ∀ w ∈ keywords, w ∈ languageWords ∧ w ∉ neverRaw ∧ IsName w := by decide
    obtain ⟨hmem, hfree, hname⟩ := key word hkeyword
    exact ⟨fun _ => hname, fun _ => .raw hmem hfree⟩
  · next hkeyword =>
    constructor
    · intro hvalid
      cases hvalid with
      | plain hname => exact hname
      | raw =>
        -- A text with a mark in front is none of letters, digits and underscores.
        exact absurd (h '#' (by simp)) (by decide)
    · intro hname
      refine .plain hname fun hmem => ?_
      rcases mem_reservedWords_or_keywords word hmem with hmem | hmem
      · exact hreserved hmem
      · exact hkeyword hmem

/-! ## The characters of the words -/

/-- Cutting keeps the characters in order. -/
theorem flatten_cutWords (mode : WordMode) (word cs : List Char) :
    (cutWords mode word cs).flatten = word.reverse ++ cs := by
  fun_induction cutWords mode word cs with
  | case1 mode word h => simp_all
  | case2 mode word h => simp
  | case3 mode word c => simp
  | case4 mode word c next rest mode' h ih => simp [ih]
  | case5 mode word c next rest mode' h h' ih => simp [ih]
  | case6 mode word c next rest mode' h h' ih => simp [ih]

theorem flatten_splitOnP (p : Char → Bool) (cs : List Char) :
    (cs.splitOnP p).flatten = cs.filter (!p ·) := by
  induction cs with
  | nil => simp
  | cons c cs ih =>
    rw [List.splitOnP_cons_eq_if_modifyHead]
    obtain ⟨first, parts, hparts⟩ := List.exists_cons_of_ne_nil (List.splitOnP_ne_nil p cs)
    rw [hparts] at ih ⊢
    cases hc : p c <;> simp_all

/-- The words of a name have all of its letters and numbers, in order. -/
theorem flatten_words (cs : List Char) : (words cs).flatten = cs.filter isAlphanumeric := by
  rw [words, List.flatMap, List.flatten_flatten, List.map_map]
  have hparts : (List.flatten ∘ cutWords .boundary []) = id := by
    funext part
    exact flatten_cutWords .boundary [] part
  rw [hparts, List.map_id, flatten_splitOnP]
  simp

/-! ## Changes of case -/

theorem lt_of_isAlphanum {c : Char} (h : c.isAlphanum = true) : c.toNat < 128 := by
  -- Each range of letters or digits says in its second half where it ends.
  have hend : c.toNat ≤ 90 ∨ c.toNat ≤ 122 ∨ c.toNat ≤ 57 := by
    rcases (Bool.or_eq_true _ _).mp h with hletter | hdigit
    · rcases (Bool.or_eq_true _ _).mp hletter with hupper | hlower
      · exact .inl (of_decide_eq_true hupper).2
      · exact .inr (.inl (of_decide_eq_true ((Bool.and_eq_true _ _).mp hlower).2))
    · exact .inr (.inr (of_decide_eq_true ((Bool.and_eq_true _ _).mp hdigit).2))
  omega

namespace IsAsciiWordChar

variable {c : Char}

theorem of_isAlphanum (h : c.isAlphanum = true) : IsAsciiWordChar c := ⟨lt_of_isAlphanum h, h⟩

theorem isAlpha_eq (h : IsAsciiWordChar c) : c.isAlpha = !c.isDigit :=
  h.of_forall (fun c => c.isAlpha = !c.isDigit) (by decide +kernel)

theorem isAlphanum_toLower (h : IsAsciiWordChar c) : c.toLower.isAlphanum = true :=
  h.of_forall (fun c => c.toLower.isAlphanum = true) (by decide +kernel)

theorem isAlphanum_toUpper (h : IsAsciiWordChar c) : c.toUpper.isAlphanum = true :=
  h.of_forall (fun c => c.toUpper.isAlphanum = true) (by decide +kernel)

theorem isLower_toUpper (h : IsAsciiWordChar c) : c.toUpper.isLower = false :=
  h.of_forall (fun c => c.toUpper.isLower = false) (by decide +kernel)

theorem isDigit_toUpper (h : IsAsciiWordChar c) : c.toUpper.isDigit = c.isDigit :=
  h.of_forall (fun c => c.toUpper.isDigit = c.isDigit) (by decide +kernel)

end IsAsciiWordChar

namespace IsWordText

variable {name : String} (h : IsWordText name)

include h

theorem isAscii : IsAscii name := by
  intro c hc
  rcases h c hc with hc | rfl
  · exact lt_of_isAlphanum hc
  · decide

theorem isAlphanumeric_eq {c : Char} (hc : c ∈ name.toList) :
    isAlphanumeric c = decide (c ≠ '_') := by
  rw [isAlphanumeric, if_pos (h.isAscii c hc)]
  rcases h c hc with hword | rfl
  · have hne : c ≠ '_' := by
      rintro rfl
      exact absurd hword (by decide)
    rw [hword, decide_eq_true hne]
  · decide

/-- The words begin with the first character that is no underscore. -/
theorem head?_flatten_words :
    (words name.toList).flatten.head? = name.toList.find? (· ≠ '_') := by
  rw [flatten_words, List.filter_congr fun c hc => h.isAlphanumeric_eq hc, List.head?_filter]

theorem toList_snakeCase : (snakeCase name).toList
    = ['_'].intercalate ((words name.toList).map (List.map Char.toLower)) := by
  rw [snakeCase, String.toList_ofList, List.map_congr_left fun w hw =>
    lowerWord_of_ascii (words_of_ascii h.isAscii hw).2]

theorem head?_snakeCase :
    (snakeCase name).toList.head? = (name.toList.find? (· ≠ '_')).map Char.toLower := by
  rw [← h.head?_flatten_words, h.toList_snakeCase]
  cases hwords : words name.toList with
  | nil => rfl
  | cons w ws =>
    have hw : w ≠ [] := ne_nil_of_mem_words (hwords ▸ List.mem_cons_self)
    obtain ⟨c, w, rfl⟩ := List.exists_cons_of_ne_nil hw
    rw [List.map_cons, intercalate_cons]
    rfl

theorem head?_upperCamelCase :
    (upperCamelCase name).toList.head? = (name.toList.find? (· ≠ '_')).map Char.toUpper := by
  rw [← h.head?_flatten_words, upperCamelCase, String.toList_ofList]
  have hascii := fun w => words_of_ascii h.isAscii (w := w)
  cases hwords : words name.toList with
  | nil => rfl
  | cons w ws =>
    obtain ⟨hne, hw⟩ := hascii w (hwords ▸ List.mem_cons_self)
    obtain ⟨c, w, rfl⟩ := List.exists_cons_of_ne_nil hne
    rw [List.flatMap_cons, capitalWord_of_ascii hw]
    rfl

theorem isWordText_snakeCase : IsWordText (snakeCase name) := by
  intro c hc
  rw [h.toList_snakeCase] at hc
  rcases mem_intercalate hc with rfl | ⟨w, hw, hc⟩
  · exact .inr rfl
  · obtain ⟨v, hv, rfl⟩ := List.mem_map.1 hw
    obtain ⟨d, hd, rfl⟩ := List.mem_map.1 hc
    exact .inl (isAsciiWordChar_of_mem_words h.isAscii hv hd).isAlphanum_toLower

theorem isAlphanum_of_mem_upperCamelCase {c : Char} (hc : c ∈ (upperCamelCase name).toList) :
    c.isAlphanum = true := by
  rw [upperCamelCase, String.toList_ofList] at hc
  obtain ⟨w, hw, hc⟩ := List.mem_flatMap.1 hc
  obtain ⟨hne, hword⟩ := words_of_ascii h.isAscii hw
  obtain ⟨d, w, rfl⟩ := List.exists_cons_of_ne_nil hne
  rw [capitalWord_of_ascii hword] at hc
  rcases List.mem_cons.1 hc with rfl | hc
  · exact (hword d List.mem_cons_self).isAlphanum_toUpper
  · obtain ⟨e, he, rfl⟩ := List.mem_map.1 hc
    exact (hword e (List.mem_cons_of_mem d he)).isAlphanum_toLower

theorem isAsciiWordChar_of_find? {c : Char} (hc : name.toList.find? (· ≠ '_') = some c) :
    IsAsciiWordChar c :=
  .of_isAlphanum ((h c (List.mem_of_find?_eq_some hc)).resolve_right
    (by simpa using List.find?_some hc))

theorem isWordText_upperCamelCase : IsWordText (upperCamelCase name) := fun _ hc =>
  .inl (h.isAlphanum_of_mem_upperCamelCase hc)

theorem append {text : String} (htext : IsWordText text) : IsWordText (name ++ text) := by
  intro c hc
  rw [String.toList_append, List.mem_append] at hc
  rcases hc with hc | hc
  · exact h c hc
  · exact htext c hc

/-- A text that begins like the words of a name, in another case, begins a name just if the first
character of the name that is no underscore is a letter. -/
theorem beginsName_iff {text : String} {f : Char → Char}
    (hhead : text.toList.head? = (name.toList.find? (· ≠ '_')).map f)
    (hf : ∀ c, IsAsciiWordChar c → (f c).isDigit = c.isDigit) :
    BeginsName text ↔ LetterFirst name := by
  rw [BeginsName, LetterFirst, hhead, Option.any_map]
  cases hfirst : name.toList.find? (· ≠ '_') with
  | none => exact Iff.rfl
  | some c =>
    have hword := h.isAsciiWordChar_of_find? hfirst
    rw [Option.any_some, Option.any_some, hword.isAlpha_eq, ← hf c hword]

end IsWordText

/-! ## Types -/

/-- The word of a type, before it is marked. -/
def typeWord (path : List String) : String := String.join (path.map upperCamelCase)

theorem typeWord_cons (name : String) (path : List String) :
    typeWord (name :: path) = upperCamelCase name ++ typeWord path := by
  rw [typeWord, List.map_cons, String.join_cons, typeWord]

section

variable {path : List String} (h : ∀ name ∈ path, IsWordText name)

include h

theorem isWordText_join : IsWordText (String.join path) := by
  intro c hc
  rw [String.toList_join] at hc
  obtain ⟨name, hname, hc⟩ := List.mem_flatMap.1 hc
  exact h name hname c hc

theorem isAlphanum_of_mem_typeWord {c : Char} (hc : c ∈ (typeWord path).toList) :
    c.isAlphanum = true := by
  rw [typeWord, String.toList_join, List.flatMap_map] at hc
  obtain ⟨name, hname, hc⟩ := List.mem_flatMap.1 hc
  exact (h name hname).isAlphanum_of_mem_upperCamelCase hc

theorem isWordText_typeWord : IsWordText (typeWord path) := fun _ hc =>
  .inl (isAlphanum_of_mem_typeWord h hc)

theorem head?_typeWord : (typeWord path).toList.head?
    = ((String.join path).toList.find? (· ≠ '_')).map Char.toUpper := by
  induction path with
  | nil => rfl
  | cons name path ih =>
    have hname := (h name List.mem_cons_self).head?_upperCamelCase
    have hpath := ih fun n hn => h n (List.mem_cons_of_mem name hn)
    rw [typeWord_cons, String.join_cons, String.toList_append, String.toList_append,
      List.head?_append, List.find?_append, hname, hpath, Option.map_or]

/-- A capital begins no keyword, so the word of a type is marked by an underscore if at all. -/
theorem typeIdentifier_eq : typeIdentifier path = typeWord path ∨
    typeIdentifier path = typeWord path ++ "_" ∧ typeWord path ∈ reservedWords := by
  have hidentifier : typeIdentifier path = identifier (typeWord path) := rfl
  rw [hidentifier, identifier]
  split
  · next hreserved => exact .inr ⟨rfl, hreserved⟩
  rw [if_neg]
  · exact .inl rfl
  intro hkeyword
  -- Every keyword begins with a small letter, and the word of a type with none.
  have hlower : ∀ w ∈ keywords, w.toList.head?.any Char.isLower = true := by decide
  have hword := hlower _ hkeyword
  rw [head?_typeWord h, Option.any_map] at hword
  cases hfirst : (String.join path).toList.find? (· ≠ '_') with
  | none =>
    rw [hfirst] at hword
    cases hword
  | some c =>
    have hc := (isWordText_join h).isAsciiWordChar_of_find? hfirst
    rw [hfirst, Option.any_some] at hword
    exact absurd hword (by simp [hc.isLower_toUpper])

/-- A mark at the end changes no beginning, as no text is marked that is empty. -/
theorem head?_typeIdentifier :
    (typeIdentifier path).toList.head? = (typeWord path).toList.head? := by
  rcases typeIdentifier_eq h with heq | ⟨heq, hreserved⟩
  · rw [heq]
  · have key : ∀ w ∈ reservedWords, (w ++ "_").toList.head? = w.toList.head? := by decide
    rw [heq, key _ hreserved]

theorem find?_typeIdentifier :
    (typeIdentifier path).toList.find? (· ≠ '_') = (typeWord path).toList.head? := by
  have hword : (typeWord path).toList.find? (· ≠ '_') = (typeWord path).toList.head? := by
    cases hchars : (typeWord path).toList with
    | nil => rfl
    | cons c cs =>
      have hc := isAlphanum_of_mem_typeWord h (hchars ▸ List.mem_cons_self)
      refine List.find?_cons_of_pos (decide_eq_true ?_)
      rintro rfl
      exact absurd hc (by decide)
  rcases typeIdentifier_eq h with heq | ⟨heq, -⟩
  · rw [heq, hword]
  · rw [heq, String.toList_append, List.find?_append, hword]
    exact Option.or_none

theorem isWordText_typeIdentifier : IsWordText (typeIdentifier path) := by
  rcases typeIdentifier_eq h with heq | ⟨heq, -⟩
  · rw [heq]
    exact isWordText_typeWord h
  · rw [heq]
    exact (isWordText_typeWord h).append (by decide)

end

/-! ## Identifiers of names -/

/-- A word that begins like the words of a name, in another case, gives an identifier just if the
first character of the name that is no underscore is a letter. -/
theorem isIdentifier_iff_letterFirst {word name : String} {f : Char → Char}
    (hword : IsWordText word) (hname : IsWordText name)
    (hhead : word.toList.head? = (name.toList.find? (· ≠ '_')).map f)
    (hf : ∀ c, IsAsciiWordChar c → (f c).isDigit = c.isDigit) :
    IsIdentifier (identifier word) ↔ LetterFirst name := by
  rw [isIdentifier_identifier_iff hword, IsName, and_iff_right hword]
  exact hname.beginsName_iff hhead hf

/-- What it takes for the identifiers of a name to be valid, and for those of the type that a path
names. -/
structure ValidityOf (path : List String) (name : String) : Prop where
  member : IsIdentifier (memberIdentifier name) ↔ LetterFirst name
  variant : IsIdentifier (variantIdentifier name) ↔ LetterFirst name
  type : IsIdentifier (typeIdentifier path) ↔ LetterFirst (String.join path)
  /-- The enum that stands for a oneof of the type. -/
  oneof : IsIdentifier (oneofIdentifier (typeIdentifier path) name) ↔
    LetterFirst (String.join path ++ name)
  /-- The member of the pool set that is named after the type. -/
  pool : IsIdentifier (memberIdentifier (typeIdentifier path)) ↔ LetterFirst (String.join path)

/-- The identifiers of names are valid just if the first character that is no underscore is a
letter. -/
theorem validityOf {path : List String} {name : String} (hpath : ∀ n ∈ path, IsWordText n)
    (hname : IsWordText name) : ValidityOf path name where
  member :=
    isIdentifier_iff_letterFirst hname.isWordText_snakeCase hname hname.head?_snakeCase
      fun _ hc => hc.isDigit_toLower
  variant :=
    isIdentifier_iff_letterFirst hname.isWordText_upperCamelCase hname hname.head?_upperCamelCase
      fun _ hc => hc.isDigit_toUpper
  type :=
    isIdentifier_iff_letterFirst (isWordText_typeWord hpath) (isWordText_join hpath)
      (head?_typeWord hpath) fun _ hc => hc.isDigit_toUpper
  oneof := by
    have hword := (isWordText_typeIdentifier hpath).append hname.isWordText_upperCamelCase
    refine isIdentifier_iff_letterFirst hword ((isWordText_join hpath).append hname) ?_
      fun _ hc => hc.isDigit_toUpper
    rw [String.toList_append, String.toList_append, List.head?_append, List.find?_append,
      head?_typeIdentifier hpath, head?_typeWord hpath, hname.head?_upperCamelCase, Option.map_or]
  pool := by
    have htype := isWordText_typeIdentifier hpath
    refine isIdentifier_iff_letterFirst (f := fun c => c.toUpper.toLower)
      htype.isWordText_snakeCase (isWordText_join hpath) ?_ fun c hc => ?_
    · rw [htype.head?_snakeCase, find?_typeIdentifier hpath, head?_typeWord hpath, Option.map_map]
      rfl
    · rw [hc.toLower_toUpper, hc.isDigit_toLower]

/-- A type and a name that are words of the language once their case has changed. -/
theorem validityOf_reserved :
    ValidityOf ["_self"] "Type" ∧
    memberIdentifier "Type" = "r#type" ∧ IsIdentifier "r#type" ∧
    typeIdentifier ["_self"] = "Self_" ∧ IsIdentifier "Self_" ∧
    memberIdentifier "Self_" = "self_" ∧ IsIdentifier "self_" := by
  have h : ValidityOf ["_self"] "Type" := validityOf (by decide +kernel) (by decide +kernel)
  have hmember : memberIdentifier "Type" = "r#type" := by decide
  have htype : typeIdentifier ["_self"] = "Self_" := by decide
  have hpool : memberIdentifier "Self_" = "self_" := by decide
  refine ⟨h, hmember, ?_, htype, ?_, hpool, ?_⟩
  · rw [← hmember]
    exact h.member.2 (by decide)
  · rw [← htype]
    exact h.type.2 (by decide)
  · rw [← hpool, ← htype]
    exact h.pool.2 (by decide)

theorem not_isIdentifier_empty : ¬IsIdentifier "" := by
  intro h
  generalize htext : "" = text at h
  cases h with
  | plain hname => exact absurd (htext ▸ hname) (by decide)
  | raw => exact absurd (congrArg String.toList htext) (by simp)

/-- A schema whose names are nothing but underscores is accepted, and what is named after them has
no name at all. -/
theorem Schema.ofFiles_nameless :
    ∃ (schema : Schema) (e : EnumType) (v : EnumValue),
      Schema.ofFiles [{ enums := [{ name := "E", values := [{ name := "_", number := 0 }] }] }]
        = .ok schema ∧
      e ∈ schema.enums ∧ v ∈ e.values ∧
      IsName v.name ∧ v.variant = variantIdentifier v.name ∧ v.variant = "" ∧
      ¬IsIdentifier v.variant :=
  ⟨⟨[""], [⟨"E", "E", [⟨"_", 0, ""⟩]⟩], []⟩, _, _, rfl, List.mem_cons_self, List.mem_cons_self,
    by decide +kernel, by decide +kernel, rfl, not_isIdentifier_empty⟩

end ProtoJson
