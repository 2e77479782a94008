import ProtoJson.Text.Blank
import ProtoJson.Text.Quoted

/-!
# Options of generated source

A parameter is a list of settings separated by commas, each a key, an equals sign and a value.
Blanks around settings, keys and values do not count, nor do empty settings. A later setting of a
key replaces an earlier one.
-/

namespace ProtoJson

/-- What can be chosen about generated source. -/
structure SourceOptions where
  /-- The path of the runtime library. -/
  runtimePath : String := "::fastjsonpb"
  /-- The type that holds the pools of idle messages. -/
  poolsName : String := "Pools"
  deriving DecidableEq, Repr

/-- A setting that is not understood. -/
structure ParameterError where
  setting : String
  deriving DecidableEq, Repr

/-- The text of an error. -/
def ParameterError.message (e : ParameterError) : String :=
  s!"invalid parameter {quoted e.setting}"

namespace SourceOptions

/-- The key and the value of a setting. The value must not be empty. -/
def setting? (setting : List Char) : Option (String × String) :=
  let (key, rest) := setting.span (· ≠ '=')
  match trimBlank (rest.drop 1) with
  | [] => none
  | value => some (String.ofList (trimBlank key), String.ofList value)

/-- The options with one more setting. -/
def apply (o : SourceOptions) (setting : List Char) : Except ParameterError SourceOptions :=
  match setting? setting with
  | some ("runtime_path", value) => .ok { o with runtimePath := value }
  | some ("pools_name", value) => .ok { o with poolsName := value }
  | _ => .error ⟨String.ofList setting⟩

/-- The settings of a parameter. -/
def settings (parameter : String) : List (List Char) :=
  ((parameter.toList.splitOn ',').map trimBlank).filter (· ≠ [])

/-- The options that a parameter chooses. -/
def parse (parameter : String) : Except ParameterError SourceOptions :=
  (settings parameter).foldlM apply {}

end SourceOptions

end ProtoJson
