import ProtoJson.Request

/-!
# Command line

Reads a request from standard input and writes the answer to standard output. Without a request that
can be decoded nothing is written, and the exit code is one.
-/

namespace ProtoJson

/-- The bytes of a stream up to its end. -/
partial def readAll (stream : IO.FS.Stream) (read : ByteArray) : IO ByteArray := do
  let chunk ← stream.read 65536
  if chunk.isEmpty then return read else readAll stream (read ++ chunk)

end ProtoJson

/-- Answers one request. -/
def main : IO UInt32 := do
  let input ← ProtoJson.readAll (← IO.getStdin) ByteArray.empty
  match ProtoJson.respond input.toList with
  | .error e =>
    IO.eprintln ("invalid request: " ++ e.message?.getD "malformed JSON")
    return 1
  | .ok answer =>
    let output ← IO.getStdout
    output.putStr (String.ofList answer.json)
    output.flush
    return 0
