import Mathlib.Data.List.Basic
import ProtoJson.Source.Layout

/-!
# Reading generated source

What is read off the steps that generated source is laid out from: the part of a line between fixed
words, and the lines of a block.
-/

namespace ProtoJson

/-! ## Lines -/

/-- What stands between two given parts of a text. -/
def between? (front back text : String) : Option String :=
  ((text.toList.dropPrefix? front.toList).bind (·.dropSuffix? back.toList)).map String.ofList

theorem between?_eq (front back name : String) :
    between? front back (front ++ name ++ back) = some name := by
  have hfront : (front ++ name ++ back).toList.dropPrefix? front.toList
      = some (name.toList ++ back.toList) :=
    List.dropPrefix?_eq_some_iff.2 ⟨front.toList, by simp, by simp⟩
  have hback : (name.toList ++ back.toList).dropSuffix? back.toList = some name.toList :=
    List.dropSuffix?_eq_some_iff.2 ⟨back.toList, rfl, by simp⟩
  rw [between?, hfront, Option.bind_some, hback, Option.map_some, String.ofList_toList]

/-- A text that has another character at some place does not begin with the part in front. -/
theorem between?_eq_none {front back text : String} {n : Nat} {c : Char}
    (hfront : front.toList[n]? = some c) (htext : text.toList[n]? ≠ some c) :
    between? front back text = none := by
  cases hdrop : text.toList.dropPrefix? front.toList with
  | none => rw [between?, hdrop, Option.bind_none, Option.map_none]
  | some rest =>
    obtain ⟨front', heq, hbeq⟩ := List.dropPrefix?_eq_some_iff.1 hdrop
    rw [beq_iff_eq] at hbeq
    refine absurd ?_ htext
    rw [heq, hbeq, List.getElem?_append_left (List.getElem?_eq_some_iff.1 hfront).1, hfront]

/-- A text that has another character at some place before its end does not end with the part
behind. -/
theorem between?_eq_none_of_back {front back text : String} {n : Nat} {c : Char}
    (hback : back.toList.reverse[n]? = some c) (htext : text.toList.reverse[n]? ≠ some c) :
    between? front back text = none := by
  rw [between?, Option.map_eq_none_iff, Option.bind_eq_none_iff]
  intro rest hrest
  rw [Option.eq_none_iff_forall_ne_some]
  intro name hname
  obtain ⟨front', heq, -⟩ := List.dropPrefix?_eq_some_iff.1 hrest
  obtain ⟨back', hrest, hbeq⟩ := List.dropSuffix?_eq_some_iff.1 hname
  rw [beq_iff_eq] at hbeq
  refine absurd ?_ htext
  rw [heq, hrest, hbeq, List.reverse_append, List.reverse_append, List.append_assoc,
    List.getElem?_append_left (List.getElem?_eq_some_iff.1 hback).1, hback]

/-- A word is cut off at the character after it, which it does not have. -/
theorem cut_word {word : List Char} {c : Char} (h : c ∉ word) (r : List Char) :
    (word ++ c :: r).takeWhile (· ≠ c) = word ∧ (word ++ c :: r).dropWhile (· ≠ c) = c :: r := by
  have hword : ∀ d ∈ word, decide (d ≠ c) = true :=
    fun d hd => decide_eq_true fun heq => h (heq ▸ hd)
  rw [List.takeWhile_append_of_pos hword, List.dropWhile_append_of_pos hword]
  simp

/-- Lines that are read one by one are read as a list. -/
theorem mapM_map_of_eq_some {α β γ : Type} {f : β → Option γ} {g : α → β} {k : α → γ} {as : List α}
    (h : ∀ a ∈ as, f (g a) = some (k a)) : (as.map g).mapM f = some (as.map k) := by
  induction as with
  | nil => rfl
  | cons a as ih =>
    rw [List.map_cons, List.mapM_cons, h a List.mem_cons_self,
      ih fun b hb => h b (List.mem_cons_of_mem _ hb)]
    rfl

/-- What is made of an element stands in what is made of the list. -/
theorem isInfix_flatMap {α β : Type} {a : α} {as : List α} (h : a ∈ as) (g : α → List β) :
    g a <:+: as.flatMap g := by
  rw [List.flatMap_def]
  exact List.infix_of_mem_flatten (List.mem_map_of_mem h)

/-! ## Steps -/

/-- What is read off steps, where `read` says what is read off each. -/
def gather (read : LayoutStep → Option String) (steps : List LayoutStep) : List String :=
  steps.filterMap read

section

variable (read : LayoutStep → Option String)

@[simp] theorem gather_nil : gather read [] = [] := rfl

@[simp] theorem gather_cons (step : LayoutStep) (steps : List LayoutStep) :
    gather read (step :: steps) = (read step).toList ++ gather read steps := by
  cases h : read step <;> simp [gather, h]

@[simp] theorem gather_append (xs ys : List LayoutStep) :
    gather read (xs ++ ys) = gather read xs ++ gather read ys := List.filterMap_append

@[simp] theorem gather_block (heading : String) (body : List LayoutStep) :
    gather read (LayoutStep.block heading body)
      = (read (.enter heading)).toList ++ (gather read body ++ (read (.leave "\x7d")).toList) := by
  simp [LayoutStep.block]

/-- What is read off lists of steps, where there is one thing to read off each. -/
theorem gather_flatMap {α : Type} {as : List α} {steps : α → List LayoutStep} {name : α → String}
    (h : ∀ a ∈ as, gather read (steps a) = [name a]) :
    gather read (as.flatMap steps) = as.map name := by
  rw [gather, List.filterMap_flatMap, List.map_eq_flatMap]
  exact List.flatMap_congr h

end

/-! ## Blocks -/

namespace LayoutStep

/-- The steps after the first heading that `p` holds for. -/
def inside (p : String → Bool) : List LayoutStep → List LayoutStep
  | [] => []
  | enter text :: rest => if p text then rest else inside p rest
  | line _ :: rest | blank :: rest | leave _ :: rest | turn _ :: rest => inside p rest

theorem isInfix_block (heading : String) (body : List LayoutStep) : body <:+: block heading body :=
  ⟨[enter heading], [leave "\x7d"], by simp [block]⟩

/-- The lines up to the first step that is none. -/
def leadingLines : List LayoutStep → List String
  | line text :: rest => text :: leadingLines rest
  | _ => []

variable {p : String → Bool} {text : String} {rest : List LayoutStep}

@[simp] theorem inside_line : inside p (line text :: rest) = inside p rest := rfl

@[simp] theorem inside_blank : inside p (blank :: rest) = inside p rest := rfl

@[simp] theorem inside_leave : inside p (leave text :: rest) = inside p rest := rfl

/-- Lines are no headings. -/
@[simp] theorem inside_map_line (texts : List String) :
    inside p (texts.map line ++ rest) = inside p rest := by
  induction texts with
  | nil => rfl
  | cons text texts ih => exact ih

/-- What is after a heading is its body and what follows. -/
theorem inside_block (h : p text = true) (body : List LayoutStep) :
    inside p (block text body ++ rest) = body ++ leave "\x7d" :: rest := by
  simp [block, inside, h]

/-- A block of another heading is searched as well. -/
theorem inside_block_of_not (h : p text = false) (body : List LayoutStep) :
    inside p (block text body ++ rest) = inside p (body ++ leave "\x7d" :: rest) := by
  simp [block, inside, h]

/-- The lines of a body that holds nothing else. -/
theorem leadingLines_map_line (texts : List String) :
    leadingLines (texts.map line ++ leave text :: rest) = texts := by
  induction texts with
  | nil => rfl
  | cons text texts ih => rw [List.map_cons, List.cons_append, leadingLines, ih]

end LayoutStep

end ProtoJson
