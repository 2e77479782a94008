import Mathlib.Data.List.Basic
import ProtoJson.Schema.Identifier

/-!
# Characters of words

The words of a name hold letters and numbers only, and there is none without a character. No case
mapping makes a mark of ASCII out of them. So a name in snake case is made of such words, joined by
single underscores, and a name in camel case has no marks at all.
-/

namespace ProtoJson

/-! ## Words -/

/-- What is between separators stands in the whole, and is none itself. -/
theorem of_mem_splitOnP {p : Char → Bool} {cs part : List Char} {c : Char}
    (hpart : part ∈ cs.splitOnP p) (hc : c ∈ part) : c ∈ cs ∧ p c = false := by
  induction cs generalizing part with
  | nil =>
    rw [List.splitOnP_nil, List.mem_singleton] at hpart
    rw [hpart] at hc
    cases hc
  | cons d cs ih =>
    rw [List.splitOnP_cons_eq_if_modifyHead] at hpart
    split at hpart
    · rcases List.mem_cons.1 hpart with rfl | hpart
      · cases hc
      · exact (ih hpart hc).imp_left (List.mem_cons_of_mem d)
    · next hd =>
      obtain ⟨first, parts, hparts⟩ := List.exists_cons_of_ne_nil (List.splitOnP_ne_nil p cs)
      rw [hparts] at ih hpart
      rcases List.mem_cons.1 hpart with rfl | hpart
      · rcases List.mem_cons.1 hc with rfl | hc
        · exact ⟨List.mem_cons_self, by simpa using hd⟩
        · exact (ih List.mem_cons_self hc).imp_left (List.mem_cons_of_mem d)
      · exact (ih (List.mem_cons_of_mem _ hpart) hc).imp_left (List.mem_cons_of_mem d)

/-- Cutting keeps the characters. -/
theorem mem_of_mem_cutWords {mode : WordMode} {word cs w : List Char} {c : Char}
    (hw : w ∈ cutWords mode word cs) (hc : c ∈ w) : c ∈ word ∨ c ∈ cs := by
  fun_induction cutWords mode word cs with
  | case1 => cases hw
  | case2 mode word h =>
    rw [List.mem_singleton.1 hw, List.mem_reverse] at hc
    exact .inl hc
  | case3 mode word d =>
    rw [List.mem_singleton.1 hw, List.mem_reverse, List.mem_cons] at hc
    rcases hc with rfl | hc
    · exact .inr List.mem_cons_self
    · exact .inl hc
  | case4 mode word d next rest mode' h ih =>
    -- The word ends after `d`.
    rcases List.mem_cons.1 hw with rfl | hw
    · rw [List.mem_reverse, List.mem_cons] at hc
      rcases hc with rfl | hc
      · exact .inr List.mem_cons_self
      · exact .inl hc
    · rcases ih hw with hc | hc
      · cases hc
      · exact .inr (List.mem_cons_of_mem _ hc)
  | case5 mode word d next rest mode' h h' ih =>
    -- The word ends before `d`.
    rcases List.mem_cons.1 hw with rfl | hw
    · exact .inl (List.mem_reverse.1 hc)
    · rcases ih hw with hc | hc
      · rw [List.mem_singleton.1 hc]
        exact .inr List.mem_cons_self
      · exact .inr (List.mem_cons_of_mem _ hc)
  | case6 mode word d next rest mode' h h' ih =>
    rcases ih hw with hc | hc
    · rcases List.mem_cons.1 hc with rfl | hc
      · exact .inr List.mem_cons_self
      · exact .inl hc
    · exact .inr (List.mem_cons_of_mem _ hc)

/-- Words hold letters and numbers of the name only. -/
theorem of_mem_words {name w : List Char} {c : Char} (hw : w ∈ words name) (hc : c ∈ w) :
    c ∈ name ∧ isAlphanumeric c = true := by
  obtain ⟨part, hpart, hw⟩ := List.mem_flatMap.1 hw
  rcases mem_of_mem_cutWords hw hc with hc | hc
  · cases hc
  · simpa using of_mem_splitOnP hpart hc

/-- There is a character in every word. -/
theorem ne_nil_of_mem_cutWords {mode : WordMode} {word cs w : List Char}
    (hword : mode = .upper → word ≠ []) (hw : w ∈ cutWords mode word cs) : w ≠ [] := by
  -- Only a word of upper case ends before the character that is read, and such a word has begun.
  fun_induction cutWords mode word cs with
  | case1 => cases hw
  | case2 mode word h =>
    rw [List.mem_singleton.1 hw]
    simpa using h
  | case3 mode word d =>
    rw [List.mem_singleton.1 hw]
    simp
  | case4 mode word d next rest mode' h ih =>
    rcases List.mem_cons.1 hw with rfl | hw
    · simp
    · exact ih (by simp) hw
  | case5 mode word d next rest mode' h h' ih =>
    rcases List.mem_cons.1 hw with rfl | hw
    · simpa using hword h'.1
    · exact ih (by simp) hw
  | case6 mode word d next rest mode' h h' ih => exact ih (fun _ => by simp) hw

theorem ne_nil_of_mem_words {name w : List Char} (hw : w ∈ words name) : w ≠ [] := by
  obtain ⟨part, -, hw⟩ := List.mem_flatMap.1 hw
  exact ne_nil_of_mem_cutWords (by simp) hw

/-! ## Letters and digits -/

/-- In ASCII, a letter or a digit. -/
def IsWordChar (c : Char) : Prop := c.toNat < 128 → c.isAlphanum = true

instance (c : Char) : Decidable (IsWordChar c) := inferInstanceAs (Decidable (_ → _))

theorem IsWordChar.ne {c d : Char} (hc : IsWordChar c) (hd : ¬IsWordChar d) : c ≠ d := by
  rintro rfl
  exact hd hc

theorem isWordChar_of_mem_words {name w : List Char} {c : Char} (hw : w ∈ words name)
    (hc : c ∈ w) : IsWordChar c := by
  intro hlt
  have h := (of_mem_words hw hc).2
  rwa [isAlphanumeric, if_pos hlt] at h

theorem isWordChar_ofNat {n : Nat} (h : 128 ≤ n) (hn : n.isValidChar) :
    IsWordChar (Char.ofNat n) := by
  have hnat : (Char.ofNat n).toNat = n := by
    rw [Char.ofNat, dif_pos hn]
    rfl
  intro hlt
  omega

/-! ## Case mappings -/

/-- A table that maps no character past ASCII to a mark of ASCII: a whole run past ASCII, or a
single character to a letter. -/
structure KeepsWordChars (shifts : List (CodeRun × Int)) (expansions : List (Nat × List Nat)) :
    Prop where
  shifts : ∀ e ∈ shifts,
    (128 ≤ e.1.first + e.2 ∧
      (e.1.last + e.2 < 0xD800 ∨ 0xE000 ≤ e.1.first + e.2 ∧ e.1.last + e.2 < 0x110000)) ∨
    (e.1.first = e.1.last ∧ IsWordChar (Char.ofNat (e.1.first + e.2).toNat))
  expansions : ∀ e ∈ expansions, e.2 ≠ [] ∧ ∀ n ∈ e.2, IsWordChar (Char.ofNat n)

theorem keepsWordChars_lower : KeepsWordChars lowerShifts lowerExpansions :=
  ⟨by decide +kernel, by decide +kernel⟩

theorem keepsWordChars_upper : KeepsWordChars upperShifts upperExpansions :=
  ⟨by decide +kernel, by decide +kernel⟩

section

variable {shifts : List (CodeRun × Int)} {expansions : List (Nat × List Nat)} {c d : Char}

theorem KeepsWordChars.mapCase (h : KeepsWordChars shifts expansions) (hc : IsWordChar c)
    (hd : d ∈ mapCase shifts expansions c) : IsWordChar d := by
  unfold ProtoJson.mapCase at hd
  split at hd
  · next form hform =>
    obtain ⟨n, hn, rfl⟩ := List.mem_map.1 hd
    exact (h.expansions _ (List.mem_of_find?_eq_some hform)).2 n hn
  · split at hd
    · next run shift hshift =>
      have hrun := List.find?_some hshift
      simp only [CodeRun.contains, Bool.and_eq_true, decide_eq_true_eq] at hrun
      rw [List.mem_singleton.1 hd]
      rcases h.shifts _ (List.mem_of_find?_eq_some hshift) with ⟨hlow, hhigh⟩ | ⟨hone, hword⟩
      · dsimp only at hlow hhigh
        refine isWordChar_ofNat (by omega) ?_
        unfold Nat.isValidChar
        omega
      · dsimp only at hone hword
        rwa [show c.toNat = run.first by omega]
    · rw [List.mem_singleton.1 hd]
      exact hc

theorem KeepsWordChars.mapCase_ne_nil (h : KeepsWordChars shifts expansions) (c : Char) :
    ProtoJson.mapCase shifts expansions c ≠ [] := by
  unfold ProtoJson.mapCase
  split
  · next form hform => simpa using (h.expansions _ (List.mem_of_find?_eq_some hform)).1
  · split <;> simp

theorem isWordChar_of_mem_lowercase (hc : IsWordChar c) (hd : d ∈ lowercase c) : IsWordChar d := by
  have key : ∀ n < 128, IsWordChar (Char.ofNat n) → IsWordChar (Char.ofNat n).toLower := by
    decide +kernel
  unfold lowercase at hd
  split at hd
  · next hlt =>
    have hlower := key c.toNat hlt
    rw [Char.ofNat_toNat] at hlower
    rw [List.mem_singleton.1 hd]
    exact hlower hc
  · exact keepsWordChars_lower.mapCase hc hd

theorem isWordChar_of_mem_uppercase (hc : IsWordChar c) (hd : d ∈ uppercase c) : IsWordChar d := by
  have key : ∀ n < 128, IsWordChar (Char.ofNat n) → IsWordChar (Char.ofNat n).toUpper := by
    decide +kernel
  unfold uppercase at hd
  split at hd
  · next hlt =>
    have hupper := key c.toNat hlt
    rw [Char.ofNat_toNat] at hupper
    rw [List.mem_singleton.1 hd]
    exact hupper hc
  · exact keepsWordChars_upper.mapCase hc hd

theorem lowercase_ne_nil (c : Char) : lowercase c ≠ [] := by
  unfold lowercase
  split
  · simp
  · exact keepsWordChars_lower.mapCase_ne_nil c

end

theorem isWordChar_of_mem_lowerWord {w : List Char} (h : ∀ c ∈ w, IsWordChar c) {d : Char}
    (hd : d ∈ lowerWord w) : IsWordChar d := by
  fun_induction lowerWord w with
  | case1 => cases hd
  | case2 =>
    rw [List.mem_singleton.1 hd]
    decide
  | case3 c hc => exact isWordChar_of_mem_lowercase (h c List.mem_cons_self) hd
  | case4 c next rest ih =>
    rcases List.mem_append.1 hd with hd | hd
    · exact isWordChar_of_mem_lowercase (h c List.mem_cons_self) hd
    · exact ih (fun c hc => h c (List.mem_cons_of_mem _ hc)) hd

theorem isWordChar_of_mem_capitalWord {w : List Char} (h : ∀ c ∈ w, IsWordChar c) {d : Char}
    (hd : d ∈ capitalWord w) : IsWordChar d := by
  cases w with
  | nil => cases hd
  | cons c rest =>
    rcases List.mem_append.1 hd with hd | hd
    · exact isWordChar_of_mem_uppercase (h c List.mem_cons_self) hd
    · exact isWordChar_of_mem_lowerWord (fun c hc => h c (List.mem_cons_of_mem _ hc)) hd

theorem lowerWord_ne_nil {w : List Char} (h : w ≠ []) : lowerWord w ≠ [] := by
  fun_induction lowerWord w with
  | case1 => exact absurd rfl h
  | case2 => simp
  | case3 c hc => exact lowercase_ne_nil c
  | case4 c next rest ih => exact List.append_ne_nil_of_left_ne_nil (lowercase_ne_nil c) _

/-! ## Names in snake case and in camel case -/

theorem intercalate_cons {α : Type} (sep : α) (w : List α) (ws : List (List α)) :
    [sep].intercalate (w :: ws) = w ++ ws.flatMap (sep :: ·) := by
  induction ws generalizing w with
  | nil => simp
  | cons w' ws ih => rw [List.intercalate_cons_cons, ih, List.flatMap_cons]; simp

/-- What is joined holds the separator and what its parts hold. -/
theorem mem_intercalate {α : Type} {sep a : α} {ws : List (List α)}
    (h : a ∈ [sep].intercalate ws) : a = sep ∨ ∃ w ∈ ws, a ∈ w := by
  cases ws with
  | nil => cases h
  | cons w ws =>
    rw [intercalate_cons] at h
    rcases List.mem_append.1 h with h | h
    · exact .inr ⟨w, List.mem_cons_self, h⟩
    · obtain ⟨v, hv, h⟩ := List.mem_flatMap.1 h
      rcases List.mem_cons.1 h with rfl | h
      · exact .inl rfl
      · exact .inr ⟨v, List.mem_cons_of_mem w hv, h⟩

/-- A name in snake case is made of words in lower case, of which none is empty, joined by single
underscores. -/
theorem exists_snakeWords (name : String) : ∃ ws : List (List Char),
    (snakeCase name).toList = ['_'].intercalate ws ∧ ∀ w ∈ ws, w ≠ [] ∧ ∀ c ∈ w, IsWordChar c := by
  refine ⟨_, String.toList_ofList, fun w hw => ?_⟩
  obtain ⟨v, hv, rfl⟩ := List.mem_map.1 hw
  exact ⟨lowerWord_ne_nil (ne_nil_of_mem_words hv), fun c hc =>
    isWordChar_of_mem_lowerWord (fun c hc => isWordChar_of_mem_words hv hc) hc⟩

theorem mem_snakeCase {name : String} {c : Char} (h : c ∈ (snakeCase name).toList) :
    c = '_' ∨ IsWordChar c := by
  obtain ⟨ws, hws, hword⟩ := exists_snakeWords name
  rw [hws] at h
  rcases mem_intercalate h with rfl | ⟨w, hw, h⟩
  · exact .inl rfl
  · exact .inr ((hword w hw).2 c h)

theorem intercalate_ne_nil {ws : List (List Char)} (hws : ws ≠ []) (h : ∀ w ∈ ws, w ≠ []) :
    ['_'].intercalate ws ≠ [] := by
  obtain ⟨w, ws, rfl⟩ := List.exists_cons_of_ne_nil hws
  rw [intercalate_cons]
  exact List.append_ne_nil_of_left_ne_nil (h w List.mem_cons_self) _

/-- No underscore is at the end of a name in snake case. -/
theorem getLast?_snakeCase (name : String) : (snakeCase name).toList.getLast? ≠ some '_' := by
  obtain ⟨ws, hws, hword⟩ := exists_snakeWords name
  rw [hws]
  clear hws
  induction ws with
  | nil => simp
  | cons w ws ih =>
    have ih := ih fun v hv => hword v (List.mem_cons_of_mem _ hv)
    cases ws with
    | nil =>
      rw [List.intercalate_singleton]
      intro hlast
      exact absurd rfl (((hword w List.mem_cons_self).2 _ (List.mem_of_getLast? hlast)).ne
        (by decide))
    | cons v ws =>
      -- The end of the name is that of the words after the first.
      have hne : ['_'].intercalate (v :: ws) ≠ [] :=
        intercalate_ne_nil (by simp) fun u hu => (hword u (List.mem_cons_of_mem _ hu)).1
      rwa [List.intercalate_cons_cons, List.getLast?_append_of_ne_nil _ hne]

theorem mem_upperCamelCase {name : String} {c : Char} (h : c ∈ (upperCamelCase name).toList) :
    IsWordChar c := by
  rw [upperCamelCase, String.toList_ofList] at h
  obtain ⟨w, hw, h⟩ := List.mem_flatMap.1 h
  exact isWordChar_of_mem_capitalWord (fun c hc => isWordChar_of_mem_words hw hc) h

/-! ## Identifiers -/

/-- A character of a word, an underscore, or the mark of a reserved word. -/
def IsIdentifierChar (c : Char) : Prop := IsWordChar c ∨ c = '_' ∨ c = '#'

instance (c : Char) : Decidable (IsIdentifierChar c) := inferInstanceAs (Decidable (_ ∨ _))

theorem mem_identifier {word : String} (hword : ∀ c ∈ word.toList, IsIdentifierChar c) {c : Char}
    (h : c ∈ (identifier word).toList) : IsIdentifierChar c := by
  unfold identifier at h
  split at h
  · rw [String.toList_append, List.mem_append] at h
    rcases h with h | h
    · exact hword c h
    · exact .inr (.inl (List.mem_singleton.1 h))
  · split at h
    · have hmark : "r#".toList = ['r', '#'] := by simp
      rw [String.toList_append, hmark, List.cons_append, List.cons_append, List.nil_append,
        List.mem_cons, List.mem_cons] at h
      rcases h with rfl | rfl | h
      · decide
      · decide
      · exact hword c h
    · exact hword c h

theorem mem_memberIdentifier {name : String} {c : Char}
    (h : c ∈ (memberIdentifier name).toList) : IsIdentifierChar c :=
  mem_identifier (fun _ hd => (mem_snakeCase hd).symm.imp_right .inl) h

theorem mem_variantIdentifier {name : String} {c : Char}
    (h : c ∈ (variantIdentifier name).toList) : IsIdentifierChar c :=
  mem_identifier (fun _ hd => .inl (mem_upperCamelCase hd)) h

end ProtoJson
