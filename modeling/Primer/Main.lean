import Primer.CommandLine

/-!
# The executable

Reads the source that the arguments ask for, and hands it to `CommandLine`.
-/

namespace Primer.CommandLine

/-- All that is left on a stream. -/
partial def readAll (stream : IO.FS.Stream) (read : ByteArray) : IO ByteArray := do
  let chunk ← stream.read 65536
  if chunk.isEmpty then
    return read
  else
    readAll stream (read ++ chunk)

/-- The reason that the system gives for a failed read. -/
def ReadError.ofSystem : IO.Error → ReadError
  | .noFileOrDirectory .. => .notFound
  | .inappropriateType .. => .isDirectory
  | error => .other error.toString

/-- The text of a file, or of standard input. -/
def readSource (path : Option String) : IO (Except ReadError String) := do
  try
    let bytes ← match path with
      | some path => IO.FS.readBinFile path
      | none => readAll (← IO.getStdin) ByteArray.empty
    return decode bytes
  catch error =>
    return .error (.ofSystem error)

/-- More calls and rounds than any run can get through. -/
def runBound : Nat :=
  Nat.pow 2 62

/-- Writes a response and gives its status. -/
def Response.deliver (response : Response) : IO UInt32 := do
  (← IO.getStdout).putStr response.stdout
  (← IO.getStderr).putStr response.stderr
  return response.status.toUInt32

end Primer.CommandLine

open Primer.CommandLine in
def main (arguments : List String) : IO UInt32 := do
  match Options.ofArguments arguments with
  | .error error => (failure error.message).deliver
  | .ok options =>
    match options.respond runBound (← readSource options.path) with
    | some response => response.deliver
    | none => (failure "The run did not end").deliver
