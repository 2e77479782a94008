import ProtoJson.Proofs.Grammar.Escape
import ProtoJson.Text.Quoted

/-!
# Reading quoted text

A text in double quotes is read up to the quote that closes it, whatever follows, and each escape
stands for its character.
-/

namespace ProtoJson

open Grammar

/-! ## Numbers in hexadecimal -/

/-- The number that hexadecimal digits write. -/
def hexNumber? (ds : List Char) : Option Nat :=
  ds.foldlM (fun n d => (hexValue? d).map (n * 16 + ·)) 0

theorem hexNumber?_hexDigits (n : Nat) : hexNumber? (hexDigits n) = some n := by
  induction n using Nat.strongRecOn with
  | ind n ih =>
    rw [hexDigits]
    split
    · next h => simp [hexNumber?, (hexValue?_hexDigit n h).1]
    · have ih' : (hexDigits (n / 16)).foldlM (fun n d => (hexValue? d).map (n * 16 + ·)) 0
          = some (n / 16) := ih (n / 16) (by omega)
      have hlast := (hexValue?_hexDigit (n % 16) (Nat.mod_lt n (by decide))).1
      rw [hexNumber?, List.foldlM_append, ih']
      show ((hexValue? (hexDigit (n % 16))).map (n / 16 * 16 + ·)).bind pure = some n
      rw [hlast]
      show some (n / 16 * 16 + n % 16) = some n
      rw [Nat.div_add_mod']

theorem brace_ne_of_mem_hexDigits {n : Nat} {d : Char} (h : d ∈ hexDigits n) : d ≠ '}' := by
  have key : ∀ m < 16, hexDigit m ≠ '}' := by decide
  induction n using Nat.strongRecOn with
  | ind n ih =>
    rw [hexDigits] at h
    split at h
    · next hlt =>
      rw [List.mem_singleton.1 h]
      exact key n hlt
    · rcases List.mem_append.1 h with h | h
      · exact ih (n / 16) (by omega) h
      · rw [List.mem_singleton.1 h]
        exact key _ (Nat.mod_lt n (by decide))

/-! ## Quoted text -/

/-- The character of an escape of two characters. -/
def unquoteMark? (mark : Char) : Option Char :=
  if mark = '"' then some '"'
  else if mark = '\\' then some '\\'
  else if mark = '0' then some '\x00'
  else if mark = 't' then some '\t'
  else if mark = 'n' then some '\n'
  else if mark = 'r' then some '\r'
  else none

/-- The first character between quotes, and what follows its form. -/
def unquoteChar? : List Char → Option (Char × List Char)
  | '\\' :: 'u' :: '{' :: r =>
    match r.dropWhile (· ≠ '}') with
    | _ :: rest => (hexNumber? (r.takeWhile (· ≠ '}'))).map fun n => (Char.ofNat n, rest)
    | [] => none
  | '\\' :: mark :: r => (unquoteMark? mark).map fun c => (c, r)
  | ['\\'] => none
  | c :: r => some (c, r)
  | [] => none

/-- The form of a character is read as a whole. -/
theorem unquoteChar?_quoteChar (c : Char) (r : List Char) :
    unquoteChar? (quoteChar c ++ r) = some (c, r) := by
  unfold quoteChar
  split_ifs with h₁ h₂ h₃ h₄ h₅ h₆ h₇
  · rw [h₁]
    rfl
  · rw [h₂]
    rfl
  · rw [h₃]
    rfl
  · rw [h₄]
    rfl
  · rw [h₅]
    rfl
  · rw [h₆]
    rfl
  · -- No form but those above begins with a backslash.
    rw [List.singleton_append, unquoteChar?.eq_def]
    split <;> simp_all
  · have hdigits : ∀ d ∈ hexDigits c.toNat, (decide (d ≠ '}')) = true :=
      fun d hd => decide_eq_true (brace_ne_of_mem_hexDigits hd)
    have hform : (['\\', 'u', '{'] ++ hexDigits c.toNat ++ ['}']) ++ r
        = '\\' :: 'u' :: '{' :: (hexDigits c.toNat ++ '}' :: r) := by simp
    rw [hform, unquoteChar?, List.dropWhile_append_of_pos hdigits,
      List.takeWhile_append_of_pos hdigits, List.dropWhile_cons_of_neg (by decide),
      List.takeWhile_cons_of_neg (by decide), List.append_nil, hexNumber?_hexDigits]
    simp

theorem length_unquoteChar?_lt {cs r : List Char} {c : Char} (h : unquoteChar? cs = some (c, r)) :
    r.length < cs.length := by
  unfold unquoteChar? at h
  split at h
  · next r' =>
    split at h
    · next brace rest hdrop =>
      obtain ⟨n, -, heq⟩ := Option.map_eq_some_iff.1 h
      cases heq
      have hle := (List.dropWhile_suffix (fun d => decide (d ≠ '}')) (l := r')).length_le
      rw [hdrop, List.length_cons] at hle
      simp only [List.length_cons]
      omega
    · cases h
  · obtain ⟨c', -, heq⟩ := Option.map_eq_some_iff.1 h
    cases heq
    simp only [List.length_cons]
    omega
  · cases h
  · cases h
    exact Nat.lt_succ_self _
  · cases h

/-- The text up to the quote that closes it, and what follows. -/
def unquoteBody? (cs : List Char) : Option (List Char × List Char) :=
  if cs.head? = some '"' then some ([], cs.tail)
  else
    match h : unquoteChar? cs with
    | some (c, rest) =>
      have := length_unquoteChar?_lt h
      (unquoteBody? rest).map fun (text, after) => (c :: text, after)
    | none => none
termination_by cs.length

/-- The text of a literal in quotes, and what follows the literal. -/
def unquote? : List Char → Option (String × List Char)
  | '"' :: cs => (unquoteBody? cs).map fun (text, after) => (String.ofList text, after)
  | _ => none

/-- A text that begins otherwise is no literal. -/
theorem unquote?_eq_none {cs : List Char} (h : cs.head? ≠ some '"') : unquote? cs = none := by
  unfold unquote?
  split
  · exact absurd rfl h
  · rfl

/-- No form of a character begins with a quote. -/
theorem head?_quoteChar (c : Char) (r : List Char) : (quoteChar c ++ r).head? ≠ some '"' := by
  unfold quoteChar
  split_ifs with h₁ h₂ h₃ h₄ h₅ h₆ h₇
  all_goals simp
  exact h₁

theorem unquoteBody?_quoted (cs r : List Char) :
    unquoteBody? (cs.flatMap quoteChar ++ '"' :: r) = some (cs, r) := by
  induction cs with
  | nil =>
    rw [List.flatMap_nil, List.nil_append, unquoteBody?, List.head?_cons, if_pos rfl]
    rfl
  | cons c cs ih =>
    rw [List.flatMap_cons, List.append_assoc, unquoteBody?, if_neg (head?_quoteChar c _)]
    split
    · next c' rest h =>
      rw [unquoteChar?_quoteChar] at h
      cases h
      rw [ih]
      rfl
    · next h =>
      rw [unquoteChar?_quoteChar] at h
      cases h

/-- A literal is read as the text that it was made of, whatever follows. -/
theorem unquote?_quoted (s : String) (r : List Char) :
    unquote? ((quoted s).toList ++ r) = some (s, r) := by
  rw [quoted, String.toList_ofList, List.cons_append, List.append_assoc, List.singleton_append,
    unquote?, unquoteBody?_quoted]
  simp

end ProtoJson
