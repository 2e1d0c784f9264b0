import SkyCatalog.CommandLine.Reply
import Std.Time.DateTime.Timestamp

/-!
# The program

Reads the arguments and the documents that they name, and writes the reply.
-/

namespace SkyCatalog.CommandLine

/-- The text of a file, if it can be read. -/
def readDocument (name : String) : IO (Option String) := do
  try
    return some (← IO.FS.readFile name)
  catch _ =>
    return none

/-- The instant that the system clock shows. -/
def currentInstant : IO Time.Instant := do
  let timestamp ← Std.Time.Timestamp.now
  let nanoseconds := timestamp.toNanosecondsSinceUnixEpoch.val
  return ⟨nanoseconds / 1000000000, (nanoseconds % 1000000000).toNat⟩

/-- The documents of a request. -/
def readDocuments (names : List String) : IO Documents := do
  let texts ← names.mapM fun name => do return (name, ← readDocument name)
  return fun name => (texts.find? (·.1 == name)).bind (·.2)

end SkyCatalog.CommandLine

open SkyCatalog.CommandLine in
/-- Answer the arguments of the program. -/
def main (arguments : List String) : IO UInt32 := do
  let names := ((read? arguments).map Request.names).getD []
  let documents ← readDocuments names
  let answer := reply documents (← currentInstant) arguments
  (← IO.getStdout).putStr answer.out
  (← IO.getStderr).putStr answer.err
  return UInt32.ofNat answer.code
