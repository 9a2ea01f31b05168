import PocketLisp.CommandLine

/-!
# The program

Reads what the run of the program depends on, and writes its transcript.
-/

namespace PocketLisp

/-- The reason that an operation on a file failed. -/
def reasonOf : IO.Error → String
  | .noFileOrDirectory .. => "No such file or directory (os error 2)"
  | .permissionDenied _ code _ => s!"Permission denied (os error {code})"
  | .inappropriateType _ code _ =>
    if code == 21 then "Is a directory (os error 21)" else "Not a directory (os error 20)"
  | e => toString e

/-- The lines of a file that is open. -/
def readSource (handle : IO.FS.Handle) : IO LineSource := do
  try
    let contents ← handle.readBinToEnd
    return .ofBytes contents .silent
  catch e =>
    return ⟨[.failure (.reported (reasonOf e))], .silent⟩

/-- The lines of a source file, or the reason why it cannot be opened. -/
def openSource (path : String) : IO (Except String LineSource) := do
  try
    let handle ← IO.FS.Handle.mk path .read
    return .ok (← readSource handle)
  catch e =>
    return .error (reasonOf e)

/-- All bytes that a stream still gives. -/
partial def readAll (stream : IO.FS.Stream) (read : ByteArray) : IO ByteArray := do
  let chunk ← stream.read 65536
  if chunk.isEmpty then return read else readAll stream (read ++ chunk)

end PocketLisp

open PocketLisp in
/-- Runs the program on the arguments, the source file and the standard input. -/
def main (args : List String) : IO UInt32 := do
  let source ← match args with
    | [path] => openSource path
    | _ => pure (.error "")
  let stdin ← if CommandLine.converses args then readAll (← IO.getStdin) .empty
    else pure .empty
  match CommandLine.run 0x1000000000000000 args (fun _ => source) stdin with
  | none => return 1
  | some transcript =>
    IO.print transcript.output
    IO.eprint transcript.complaint
    return transcript.exitCode.toUInt32
