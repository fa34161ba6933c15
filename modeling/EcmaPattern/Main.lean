import EcmaPattern.CommandLine.Session

/-! # The command line -/

namespace EcmaPattern.CommandLine

/-- Reads a stream to its end. -/
partial def readAll (stream : IO.FS.Stream) (sofar : ByteArray) : IO ByteArray := do
  let chunk ← stream.read 65536
  if chunk.isEmpty then
    return sofar
  else
    readAll stream (sofar ++ chunk)

/-- Whether a session with these arguments reads the standard input. -/
def readsInput (arguments : List String) : Bool :=
  match Arguments.ofList arguments with
  | .ok a => a.patterns.isEmpty
  | .error _ => false

end EcmaPattern.CommandLine

open EcmaPattern.CommandLine in
/-- Runs a session and tells what is wrong with its arguments, if anything. -/
def main (arguments : List String) : IO UInt32 := do
  let stdin ← if readsInput arguments then readAll (← IO.getStdin) .empty else pure .empty
  let report := run arguments stdin.toList
  (← IO.getStdout).putStr report.stdout
  if let .error (.failure e) := Arguments.ofList arguments then
    IO.eprintln e.message
  return report.status
