import ProtoJson.Text.Alphanumeric
import ProtoJson.Text.LetterCase

/-!
# Words of a name

A name is cut into words at every character that is neither letter nor number, between a
lower-case and an upper-case letter (`fooBar`), and in front of the last capital of a run that a
lower-case letter follows (`HTTPServer`). `snakeCase` and `upperCamelCase` spell the words anew.
-/

namespace ProtoJson

/-- What the characters of the current word have been so far. -/
inductive WordMode where
  | boundary
  | lower
  | upper
  deriving DecidableEq, Repr

/-- The mode after `c` if no word ends there. Characters without case keep it. -/
def WordMode.after (mode : WordMode) (c : Char) : WordMode :=
  if isLowercase c then .lower else if isUppercase c then .upper else mode

/-- The words of a part that holds only letters and numbers. `word` is what the current word has
so far, in reverse. -/
def cutWords (mode : WordMode) (word : List Char) : List Char → List (List Char)
  | [] => if word.isEmpty then [] else [word.reverse]
  | [c] => [(c :: word).reverse]
  | c :: next :: rest =>
    let mode' := mode.after c
    if mode' = .lower ∧ isUppercase next then
      (c :: word).reverse :: cutWords .boundary [] (next :: rest)
    else if mode = .upper ∧ isUppercase c ∧ isLowercase next then
      word.reverse :: cutWords .boundary [c] (next :: rest)
    else cutWords mode' (c :: word) (next :: rest)

/-- The words of a name, in order. -/
def words (name : List Char) : List (List Char) :=
  (name.splitOnP fun c => !isAlphanumeric c).flatMap (cutWords .boundary [])

/-- A word in lower case. A sigma at its end takes the final form. -/
def lowerWord : List Char → List Char
  | [] => []
  | [c] => if c = 'Σ' then ['ς'] else lowercase c
  | c :: next :: rest => lowercase c ++ lowerWord (next :: rest)

/-- A word with its first character in upper case and the others in lower case. -/
def capitalWord : List Char → List Char
  | [] => []
  | c :: rest => uppercase c ++ lowerWord rest

/-- The words of a name in lower case, joined by underscores. -/
def snakeCase (name : String) : String :=
  String.ofList (['_'].intercalate ((words name.toList).map lowerWord))

/-- The words of a name with a capital each, joined by nothing. -/
def upperCamelCase (name : String) : String :=
  String.ofList ((words name.toList).flatMap capitalWord)

end ProtoJson
