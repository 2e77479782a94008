import ProtoJson.Declaration.Decode
import ProtoJson.Schema.Resolve
import ProtoJson.Source.File

/-!
# Requests

A request names schema files, declares what they hold, and may have a parameter. It is answered with
the source that is generated for the files, or with the reason why there is none.
-/

namespace ProtoJson

/-- What a schema compiler asks for. -/
structure Request where
  /-- The names of the files that source is wanted for. -/
  wanted : List String := []
  parameter : Option String := none
  /-- The files and everything they depend on. -/
  files : List FileDecl := []
  deriving Repr

/-- A generated file. -/
structure SourceFile where
  name : String
  content : String
  deriving DecidableEq, Repr

/-- Why a request has no source. -/
inductive RequestError where
  | parameter (e : ParameterError)
  | schema (e : SchemaError)
  deriving DecidableEq, Repr

/-- The text of an error. -/
def RequestError.message : RequestError → String
  | parameter e => e.message
  | schema e => e.message

/-- The answer to a request. -/
inductive Response where
  | file (f : SourceFile)
  | failure (message : String)
  deriving DecidableEq, Repr

/-- A name without the ending `.proto`. -/
def withoutExtension (name : String) : String :=
  let ending := ".proto".toList
  if ending.isSuffixOf name.toList then
    String.ofList (name.toList.take (name.toList.length - ending.length))
  else name

namespace Request

/-- The members of a request. -/
def members (depth : Nat) : List (RecordMember Request) :=
  [.of "fileToGenerate" (Document.asList (fun _ => Document.asString) depth)
      fun r v => { r with wanted := v },
    .of "parameter" (Document.asOptional Document.asString) fun r v => { r with parameter := v },
    .of "protoFile" (Document.asList FileDecl.decode depth) fun r v => { r with files := v }]

/-- Reads a request. -/
def decode : Nat → Decoder Request := Document.asRecord members {}

/-- The name of the generated file: that of the first wanted file, or else of the first file, with
an ending of its own. -/
def fileName (r : Request) : String :=
  let first := (r.wanted.head?.or (r.files.head?.map (·.name))).getD "schema"
  withoutExtension first ++ ".fastjsonpb.rs"

/-- The file that a request asks for. -/
def generate (r : Request) : Except RequestError SourceFile := do
  let options ← (SourceOptions.parse (r.parameter.getD "")).mapError .parameter
  let schema ← (Schema.ofFiles r.files).mapError .schema
  return { name := r.fileName, content := schema.source options }

/-- The answer to a request. -/
def respond (r : Request) : Response :=
  match r.generate with
  | .ok f => .file f
  | .error e => .failure e.message

end Request

/-- The answer to the JSON text of a request. -/
def respond (request : List UInt8) : Except DecodeError Response :=
  (Document.decode Request.decode request).map Request.respond

/-- The JSON text of an answer. -/
def Response.json : Response → List Char
  | file f =>
    "\x7b\"file\":[\x7b\"name\":".toList ++ documentString f.name ++ ",\"content\":".toList ++
      documentString f.content ++ "\x7d]\x7d".toList
  | failure message => "\x7b\"error\":".toList ++ documentString message ++ ['\x7d']

end ProtoJson
