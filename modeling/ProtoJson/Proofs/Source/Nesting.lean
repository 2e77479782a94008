import ProtoJson.Proofs.Source.Brackets
import ProtoJson.Source.Layout

/-!
# Brackets of laid out lines

Steps are read line by line, each begun and ended outside literals and comments, and indentation and
empty lines change nothing. So a block closes what it opens if its body does, and the text of steps
that close what they open is matched.
-/

namespace ProtoJson

namespace LayoutStep

/-! ## Lines of steps -/

/-- The line of a step, not indented. -/
def content : LayoutStep → String
  | line text | enter text | leave text | turn text => text
  | blank => ""

/-- The lines of steps, one after the other, close the brackets `before` and leave the brackets
`after` open. -/
inductive Nests : List Bracket → List Bracket → List LayoutStep → Prop where
  | nil {before : List Bracket} : Nests before before []
  | cons {before between after : List Bracket} {step : LayoutStep} {steps : List LayoutStep}
    (head : Spans before between step.content) (tail : Nests between after steps) :
    Nests before after (step :: steps)

/-- The lines of steps close what they open. -/
def IsNested (steps : List LayoutStep) : Prop := Nests [] [] steps

theorem scan_indentation (level : Nat) (stack : List Bracket) :
    scan (.code false, stack) (String.join (List.replicate level "    ")).toList
      = some (.code false, stack) := by
  induction level with
  | zero => rfl
  | succ level ih =>
    have hspaces : scan (.code false, stack) "    ".toList = some (.code false, stack) := rfl
    rw [List.replicate_succ, String.join_cons, String.toList_append, scan_append, hspaces]
    exact ih

theorem spans_indented {before after : List Bracket} {text : String} (h : Spans before after text)
    (level : Nat) : Spans before after (indented level text) := by
  unfold indented
  split
  · next hempty => rwa [← hempty]
  · intro stack
    rw [String.toList_append, List.append_assoc, scan_append, scan_indentation]
    exact h stack

/-- A step stands for its line, and the others follow at some level. -/
theorem exists_lines_cons (level : Nat) (step : LayoutStep) (steps : List LayoutStep) :
    ∃ l l', lines level (step :: steps) = indented l step.content :: lines l' steps := by
  cases step with
  | blank => exact ⟨0, level, by rw [content, indented, if_pos rfl, lines]⟩
  | _ => exact ⟨_, _, rfl⟩

namespace Nests

variable {before between after : List Bracket} {xs ys : List LayoutStep}

theorem append (hx : Nests before between xs) (hy : Nests between after ys) :
    Nests before after (xs ++ ys) := by
  induction hx with
  | nil => exact hy
  | cons head _ ih => exact .cons head (ih hy)

theorem frame (h : Nests before after xs) (below : List Bracket) :
    Nests (before ++ below) (after ++ below) xs := by
  induction h with
  | nil => exact .nil
  | cons head _ ih => exact .cons (head.frame below) ih

/-- The lines of steps are read one after the other, however they are indented. -/
theorem scan_lines (h : Nests before after xs) (level : Nat) (stack : List Bracket) :
    scan (.code false, before ++ stack) ((lines level xs).flatMap fun l => l.toList ++ ['\n'])
      = some (.code false, after ++ stack) := by
  -- The level changes from line to line, and the brackets do not depend on it.
  induction h generalizing level with
  | nil => rfl
  | @cons before between after step steps head _ ih =>
    obtain ⟨l, l', hlines⟩ := exists_lines_cons level step steps
    rw [hlines, List.flatMap_cons, scan_append, spans_indented head l stack]
    exact ih l'

end Nests

/-! ## Blocks -/

namespace IsNested

variable {steps xs ys : List LayoutStep}

theorem nil : IsNested [] := Nests.nil

theorem line_of_begins {text : String} (h : Begins [] [] text) (hs : IsNested steps) :
    IsNested (LayoutStep.line text :: steps) :=
  .cons h.spans hs

theorem line {text : String} (h : IsBalanced text) (hs : IsNested steps) :
    IsNested (LayoutStep.line text :: steps) :=
  line_of_begins h.begins hs

theorem comment {text : String} (h : Comments text) (hs : IsNested steps) :
    IsNested (LayoutStep.line text :: steps) :=
  .cons h.spans hs

theorem blank (hs : IsNested steps) : IsNested (LayoutStep.blank :: steps) :=
  .cons (IsBalanced.fixed rfl).spans hs

theorem append (hx : IsNested xs) (hy : IsNested ys) : IsNested (xs ++ ys) := Nests.append hx hy

theorem block_of_begins {heading : String} (h : Begins [] [.curly] heading)
    (hs : IsNested steps) : IsNested (block heading steps) :=
  .cons h.spans ((hs.frame [.curly]).append (.cons (Turns.fixed rfl).spans .nil))

theorem block {heading : String} (h : Turns [] [.curly] heading) (hs : IsNested steps) :
    IsNested (block heading steps) :=
  block_of_begins h.begins hs

theorem flatMap {α : Type} {as : List α} {g : α → List LayoutStep}
    (h : ∀ a ∈ as, IsNested (g a)) : IsNested (as.flatMap g) := by
  induction as with
  | nil => exact .nil
  | cons a as ih =>
    rw [List.flatMap_cons]
    exact (h a List.mem_cons_self).append (ih fun b hb => h b (List.mem_cons_of_mem a hb))

theorem map {α : Type} {as : List α} {g : α → LayoutStep}
    (h : ∀ a ∈ as, Spans [] [] (g a).content) : IsNested (as.map g) := by
  induction as with
  | nil => exact .nil
  | cons a as ih =>
    exact .cons (h a List.mem_cons_self) (ih fun b hb => h b (List.mem_cons_of_mem a hb))

end IsNested

/-! ## Texts -/

/-- A line feed behind a line feed ends no more than the first does. -/
theorem scan_newlines {s : ScanState} {stack : List Bracket} {marked : Bool}
    (h : scan s ['\n', '\n'] = some (.code marked, stack)) :
    ∃ marked, scan s ['\n'] = some (.code marked, stack) := by
  have hcode : ∀ m st, scanCode m st '\n' = some (.code false, st) := fun m st =>
    scanCode_of_isPlainChar (by decide) m st
  obtain ⟨region, st⟩ := s
  refine ⟨false, ?_⟩
  cases region with
  | code m =>
    rw [scan_cons, scanChar, hcode] at h ⊢
    cases h
    rfl
  | slash =>
    cases h
    rfl
  | comment =>
    cases h
    rfl
  | character d =>
    have hchar : scanChar (.character d, st) '\n'
        = if d.isAlphanum ∨ d = '_' then some (.code false, st) else none := by
      rw [scanChar, if_neg (by decide), hcode]
    rw [scan_cons, hchar] at h ⊢
    split at h
    · next hname =>
      cases h
      rw [if_pos hname]
      rfl
    · cases h
  | _ =>
    -- In a literal, two line feeds do not lead back to code.
    cases h

/-- The empty lines at the end leave nothing open. -/
theorem scan_dropBlankEnd {s : ScanState} {stack : List Bracket} {marked : Bool} {cs : List Char}
    (h : scan s cs.reverse = some (.code marked, stack)) :
    ∃ marked, scan s (dropBlankEnd cs).reverse = some (.code marked, stack) := by
  fun_induction dropBlankEnd cs generalizing marked with
  | case1 rest ih =>
    rw [List.reverse_cons, List.reverse_cons, List.append_assoc, scan_append] at h
    obtain ⟨s₁, hrest, hnewlines⟩ := Option.bind_eq_some_iff.1 h
    obtain ⟨marked₁, hnewline⟩ := scan_newlines hnewlines
    refine @ih marked₁ ?_
    rw [List.reverse_cons, scan_append, hrest]
    exact hnewline
  | case2 cs => exact ⟨marked, h⟩

/-- The text of steps that close what they open is matched. -/
theorem isMatched_text {steps : List LayoutStep} (h : IsNested steps) : IsMatched (text steps) := by
  have hscan := h.scan_lines 0 []
  have hjoin : ((lines 0 steps).flatMap fun l => l.toList ++ ['\n'])
      = (String.join ((lines 0 steps).map (· ++ "\n"))).toList := by
    rw [String.toList_join, List.flatMap_map]
    refine List.flatMap_congr fun l _ => ?_
    rw [String.toList_append]
    rfl
  rw [hjoin] at hscan
  obtain ⟨marked, hmarked⟩ := scan_dropBlankEnd (by rwa [List.reverse_reverse])
  refine ⟨marked, ?_⟩
  rw [text, String.toList_ofList]
  exact hmarked

end LayoutStep

end ProtoJson
