import ProtoJson.Source.Literal
import ProtoJson.Source.Message

/-!
# Codecs in generated source

The three functions of a codec: writing a message, reading one, and giving a message with everything
in it back to the pools. The writer puts a comma after every item of a sequence and takes the last
one back; the reader announces a comma after every item and lets the parser decide.
-/

namespace ProtoJson.MessageType

open LayoutStep

/-! ## Writing -/

/-- Writes the key of a field, and the bracket of a list or a map. -/
def writeKey (f : Field) (opening : String) : LayoutStep :=
  line s!"buf.write({keyLiteral f.jsonName opening});"

/-- Writes a comma. -/
def writeComma : LayoutStep := line "buf.write_byte(b',');"

/-- Takes back the last comma and writes a closing bracket. -/
def writeClose (bracket : String) : List LayoutStep :=
  [line "buf.fix_symbol();", line s!"buf.write_byte(b'{bracket}');"]

/-- Writes a plain field, unless it is left out. -/
def writeField (c : SourceContext) (f : Field) : List LayoutStep :=
  let item := line (c.writeValue f.kind (.borrowed "v"))
  match f.cardinality with
  | .singular =>
    if f.kind = .bytes ∨ f.kind.isMessage then
      block s!"if let Some(v) = &self.{f.member} \x7b" [writeKey f "", item, writeComma]
    else
      block s!"if !self.{f.emptiness}() \x7b"
        [writeKey f "", line (c.writeValue f.kind (.member s!"self.{f.member}")), writeComma]
  | .list =>
    block s!"if let Some(list) = &self.{f.member} \x7b"
      (writeKey f "[" :: (block "for v in list \x7b" [item, writeComma] ++ writeClose "]" ++
        [writeComma]))
  | .map _ =>
    block s!"if let Some(map) = &self.{f.member} \x7b"
      (writeKey f "\x7b" ::
        (block "for (k, v) in map \x7b" [line "buf.write_map_key(k);", item, writeComma] ++
          writeClose "\x7d" ++ [writeComma]))

/-- Writes the member of a oneof that is set. -/
def writeOneof (c : SourceContext) (m : MessageType) (o : Oneof) (index : Nat) : List LayoutStep :=
  block s!"if let Some(oneof) = &self.{o.member} \x7b"
    (block "match oneof \x7b"
      ((m.members index).flatMap fun f =>
        block s!"{o.typeName}::{f.variant}(v) => \x7b"
          [writeKey f "", line (c.writeValue f.kind (.borrowed "v"))]) ++
      [writeComma])

/-- The function that writes a message. -/
def writeSteps (c : SourceContext) (m : MessageType) : List LayoutStep :=
  block s!"fn marshal_json(&self, buf: &mut {c.runtime}::Buffer) \x7b"
    (line "buf.write_byte(b'\x7b');" ::
      (m.plainFields.flatMap (writeField c) ++
        m.oneofs.zipIdx.flatMap (fun (o, index) => m.writeOneof c o index) ++
        writeClose "\x7d"))

/-! ## Giving back -/

/-- Gives the message that `taken` may hold back to its pool. -/
def recycleOptional (c : SourceContext) (f : Field) (name taken : String) : List LayoutStep :=
  block s!"if let Some({name}) = {taken} \x7b" [line (c.recycle f.kind name ++ ";")]

/-- Gives every message of the sequence `taken` back to its pool. -/
def recycleEach (c : SourceContext) (f : Field) (taken : String) : List LayoutStep :=
  block s!"for v in {taken} \x7b" [line (c.recycle f.kind "v" ++ ";")]

/-- The messages of a list that may be absent. -/
def listItems (taken : String) : String := taken ++ ".into_iter().flatten()"

/-- The messages of a map that may be absent. -/
def mapItems (taken : String) : String :=
  taken ++ ".into_iter().flat_map(::std::collections::HashMap::into_values)"

/-- Empties a plain field and gives the messages in it back to their pool. -/
def recycleField (c : SourceContext) (f : Field) : List LayoutStep :=
  match f.cardinality, f.kind with
  | .singular, .bool => [line s!"self.{f.member} = false;"]
  | .singular, .integer _ => [line s!"self.{f.member} = 0;"]
  | .singular, .float32 | .singular, .float64 => [line s!"self.{f.member} = 0.0;"]
  | .singular, .string => [line s!"self.{f.member}.clear();"]
  | .singular, .enumeration _ => [line s!"self.{f.member} = {c.valueType f.kind}::default();"]
  | .singular, .message _ => recycleOptional c f "v" s!"self.{f.member}.take()"
  | .list, .message _ => recycleEach c f (listItems s!"self.{f.member}.take()")
  | .map _, .message _ => recycleEach c f (mapItems s!"self.{f.member}.take()")
  | _, _ => [line s!"self.{f.member} = None;"]

/-- The function that gives a message back to its pool. -/
def recycleSteps (c : SourceContext) (m : MessageType) : List LayoutStep :=
  let receiver := if m.fields.isEmpty then "self" else "mut self"
  block s!"fn destruct({receiver}: ::std::boxed::Box<Self>, pools: &{c.pools}) \x7b"
    (m.plainFields.flatMap (recycleField c) ++
      m.oneofs.flatMap (fun o =>
        block s!"if let Some(v) = self.{o.member}.take() \x7b" [line "v.destruct(pools);"]) ++
      [line s!"pools.{m.poolMember}.release(self);"])

/-! ## Reading -/

/-- Announces a separator. -/
def announce (separator : String) : LayoutStep := line s!"p.assert_symbol(b'{separator}');"

/-- Reads a sequence between two brackets: `item` reads one item. -/
def readSequence (opening closing : String) (item : List LayoutStep) : List LayoutStep :=
  [line s!"p.symbol(b'{opening}')?;"] ++
    block s!"while !p.is_symbol(b'{closing}') \x7b" (item ++ [announce ","]) ++
    [announce ",", line s!"p.symbol(b'{closing}')?;"]

/-- Reads a list and puts it in the place of the one before. -/
def readList (c : SourceContext) (f : Field) : List LayoutStep :=
  [line "let mut list = ::std::vec::Vec::new();"] ++
    readSequence "[" "]" [line s!"list.push({c.readValue f.kind});"] ++
    if f.kind.isMessage then recycleEach c f (listItems s!"self.{f.member}.replace(list)")
    else [line s!"self.{f.member} = Some(list);"]

/-- Reads a map and puts it in the place of the one before. The last of equal keys counts. -/
def readMap (c : SourceContext) (f : Field) (key : KeyKind) : List LayoutStep :=
  let insertion :=
    if f.kind.isMessage then recycleOptional c f "old" "map.insert(k, v)"
    else [line "map.insert(k, v);"]
  [line "let mut map = ::std::collections::HashMap::new();"] ++
    readSequence "\x7b" "\x7d"
      ([line s!"let k = p.map_key::<{c.keyType key}>()?;", announce ":",
        line s!"let v = {c.readValue f.kind};"] ++ insertion) ++
    if f.kind.isMessage then recycleEach c f (mapItems s!"self.{f.member}.replace(map)")
    else [line s!"self.{f.member} = Some(map);"]

/-- The text by which the reader knows a field: its JSON name in quotes. -/
def arm (f : Field) : String := quoted f.jsonName

/-- Reads a member of the oneof `o`. -/
def readMember (c : SourceContext) (o : Oneof) (f : Field) : List LayoutStep :=
  block s!"{arm f} => \x7b"
    (line s!"let value = {o.typeName}::{f.variant}({c.readValue f.kind});" ::
      block s!"if let Some(old) = self.{o.member}.replace(value) \x7b"
        [line "old.destruct(pools);"])

/-- Reads a plain field. -/
def readField (c : SourceContext) (f : Field) : List LayoutStep :=
  match f.cardinality, f.kind with
  | .singular, .message _ =>
    block s!"{arm f} => \x7b"
      (line s!"let value = {c.readValue f.kind};" ::
        recycleOptional c f "old" s!"self.{f.member}.replace(value)")
  | .singular, .bytes => [line s!"{arm f} => self.{f.member} = Some({c.readValue f.kind}),"]
  | .singular, _ => [line s!"{arm f} => self.{f.member} = {c.readValue f.kind},"]
  | .list, _ => block s!"{arm f} => \x7b" (readList c f)
  | .map key, _ => block s!"{arm f} => \x7b" (readMap c f key)

/-- Reads a field. -/
def readArm (c : SourceContext) (m : MessageType) (f : Field) : List LayoutStep :=
  match f.oneof with
  | none => readField c f
  | some index => (m.oneofs[index]?.map fun o => readMember c o f).getD []

/-- Reads one member of a message. Unknown keys are skipped with their value. -/
def readItem (c : SourceContext) (m : MessageType) : List LayoutStep :=
  if m.fields.isEmpty then
    [line "let _key = p.str()?;", announce ":", line "p.skip_value();"]
  else
    [line "let key = p.str()?;", announce ":"] ++
      block "match &*key \x7b" (m.fields.flatMap (readArm c m) ++ [line "_ => p.skip_value(),"])

/-- The function that reads a message. -/
def readSteps (c : SourceContext) (m : MessageType) : List LayoutStep :=
  let pools := if m.hasMessages ∨ !m.oneofs.isEmpty then "pools" else "_pools"
  [enter "fn unmarshal_json(", line "&mut self,", line s!"p: &mut {c.runtime}::Parser<'_>,",
    line s!"{pools}: &{c.pools},",
    turn s!") -> ::core::result::Result<(), {c.runtime}::Error> \x7b"] ++
    readSequence "\x7b" "\x7d" (readItem c m) ++
    [line "Ok(())", leave "\x7d"]

/-! ## All of it -/

/-- The codec of a message type. -/
def codecSteps (c : SourceContext) (m : MessageType) : List LayoutStep :=
  block s!"impl {c.runtime}::Codec for {m.typeName} \x7b"
    ([line s!"type Pools = {c.pools};", blank] ++ writeSteps c m ++ [blank] ++ readSteps c m ++
      [blank] ++ recycleSteps c m) ++
    [blank]

/-- The source of a message. -/
def source (c : SourceContext) (m : MessageType) : List LayoutStep :=
  typeSteps c m ++ m.oneofs.zipIdx.flatMap (fun (o, index) => m.oneofSteps c o index) ++
    functionSteps c m ++ codecSteps c m

end ProtoJson.MessageType
