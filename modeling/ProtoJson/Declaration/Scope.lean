import ProtoJson.Declaration.Basic

/-!
# Where types are declared

A set of files as one list of messages and one list of enums, each with the scope it stands in.
Parents come before the types inside them. Nothing inside a map entry is declared.
-/

namespace ProtoJson

/-- The package of a file, and the names of the types around a place in it, outermost first. -/
structure Scope where
  package : Option String
  path : List String
  deriving DecidableEq, Repr

/-- The scope inside a type. -/
def Scope.inside (s : Scope) (name : String) : Scope := { s with path := s.path ++ [name] }

/-- The name of the innermost type with its package, joined by dots. -/
def Scope.fullName (s : Scope) : String := ".".intercalate (s.package.toList ++ s.path)

/-- A declaration and the scope inside it. -/
structure Placed (α : Type) where
  scope : Scope
  decl : α
  deriving Repr

/-- The name of a declared type with its package. -/
def Placed.fullName {α : Type} (p : Placed α) : String := p.scope.fullName

mutual

/-- A message and all messages inside it, where `s` is the scope inside it. -/
def MessageDecl.placed (s : Scope) : MessageDecl → List (Placed MessageDecl)
  | m@⟨_, _, messages, _, _, isMapEntry⟩ =>
    ⟨s, m⟩ :: if isMapEntry then [] else placedAll s messages

/-- The messages of a list and all messages inside them, where `s` is the scope around them. -/
def MessageDecl.placedAll (s : Scope) : List MessageDecl → List (Placed MessageDecl)
  | [] => []
  | m :: ms => m.placed (s.inside m.name) ++ placedAll s ms

end

/-- The enums of a list, where `s` is the scope around them. -/
def EnumDecl.placedAll (s : Scope) (enums : List EnumDecl) : List (Placed EnumDecl) :=
  enums.map fun e => ⟨s.inside e.name, e⟩

namespace FileDecl

/-- The scope of a file. An empty package counts as none. -/
def scope (f : FileDecl) : Scope := ⟨f.package.filter (· ≠ ""), []⟩

/-- The messages of a file and the map entries among them. -/
def placedMessages (f : FileDecl) : List (Placed MessageDecl) :=
  MessageDecl.placedAll f.scope f.messages

/-- The enums of a file, those outside all messages first. -/
def placedEnums (f : FileDecl) : List (Placed EnumDecl) :=
  EnumDecl.placedAll f.scope f.enums ++
    (f.placedMessages.filter (!·.decl.isMapEntry)).flatMap fun m =>
      EnumDecl.placedAll m.scope m.decl.enums

end FileDecl

end ProtoJson
