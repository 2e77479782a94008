/-!
# Laying out lines

Generated text as a list of steps, each a line that keeps or changes the indentation, and the text
that the steps stand for. `block` is a heading, an indented body and a closing brace.
-/

namespace ProtoJson

/-- A step of laying out text. -/
inductive LayoutStep where
  | line (text : String)
  | blank
  /-- A line after which the text is one level further in. -/
  | enter (text : String)
  /-- A line one level further out, as is what follows. -/
  | leave (text : String)
  /-- A line one level further out than what stands around it. -/
  | turn (text : String)
  deriving DecidableEq, Repr

/-- A line at a level of indentation. Empty lines are not indented. -/
def indented (level : Nat) (text : String) : String :=
  if text = "" then "" else String.join (List.replicate level "    ") ++ text

namespace LayoutStep

/-- The lines that steps stand for, where the first stands at `level`. -/
def lines (level : Nat) : List LayoutStep → List String
  | [] => []
  | line text :: rest => indented level text :: lines level rest
  | blank :: rest => "" :: lines level rest
  | enter text :: rest => indented level text :: lines (level + 1) rest
  | leave text :: rest => indented (level - 1) text :: lines (level - 1) rest
  | turn text :: rest => indented (level - 1) text :: lines (level - 1 + 1) rest

/-- The level after the steps. There is none if a step would leave level zero. -/
def levelAfter? (level : Nat) : List LayoutStep → Option Nat
  | [] => some level
  | line _ :: rest | blank :: rest => levelAfter? level rest
  | enter _ :: rest => levelAfter? (level + 1) rest
  | leave _ :: rest => if level = 0 then none else levelAfter? (level - 1) rest
  | turn _ :: rest => if level = 0 then none else levelAfter? level rest

/-- A heading, an indented body and a closing brace. -/
def block (heading : String) (body : List LayoutStep) : List LayoutStep :=
  enter heading :: (body ++ [leave "\x7d"])

/-- A text without the empty lines at its end. The text is given in reverse. -/
def dropBlankEnd : List Char → List Char
  | '\n' :: '\n' :: rest => dropBlankEnd ('\n' :: rest)
  | cs => cs

/-- The text of steps, each line ended by a line feed. -/
def text (steps : List LayoutStep) : String :=
  let all := String.join ((lines 0 steps).map (· ++ "\n"))
  String.ofList (dropBlankEnd all.toList.reverse).reverse

end LayoutStep

end ProtoJson
