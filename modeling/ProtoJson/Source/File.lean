import ProtoJson.Source.Codec
import ProtoJson.Source.Enum

/-!
# Generated files

The source of a whole schema: the set of pools, every enum, and every message with its codec.
-/

namespace ProtoJson.Schema

open LayoutStep

/-- The type that holds a pool for each message type. -/
def poolSteps (c : SourceContext) : List LayoutStep :=
  [line "/// One instance pool per message type.", line "#[derive(Debug, Default)]"] ++
    (if c.schema.messages.isEmpty then [line s!"pub struct {c.pools};"]
    else block s!"pub struct {c.pools} \x7b"
      (c.schema.messages.map fun m =>
        line s!"pub {m.poolMember}: {c.runtime}::Pool<{m.typeName}>,")) ++
    [blank]

/-- The steps of the source of a schema. -/
def sourceSteps (s : Schema) (options : SourceOptions) : List LayoutStep :=
  let c : SourceContext := ⟨s, options⟩
  [line "// Code generated by fastjsonpb-gen. DO NOT EDIT."] ++
    s.sources.map (fun name => line s!"// source: {name}") ++ [blank] ++
    poolSteps c ++ s.enums.flatMap (EnumType.source c) ++
    s.messages.flatMap (MessageType.source c)

/-- The source of a schema. -/
def source (s : Schema) (options : SourceOptions) : String := text (s.sourceSteps options)

end ProtoJson.Schema
