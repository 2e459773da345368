import Dana.CommandLine

/-!
# The program

Reads the file that the command needs, and prints the response.
-/

namespace Dana

/-- The text of a file, if it can be read and is UTF-8. -/
def readText (file : String) : IO (Option String) := do
  try
    let bytes ← IO.FS.readBinFile file
    return String.fromUTF8? bytes
  catch _ => return none

end Dana

open Dana in
def main (args : List String) : IO UInt32 := do
  let text ←
    match (Command.parse? args).bind Command.file? with
    | some file => readText file
    | none => pure none
  let outcome := respond (fun _ => text) args
  match outcome with
  | .ok r =>
    IO.print r.stdout
    IO.eprint r.stderr
  | .error f => IO.eprintln f.message
  return exitCode outcome
