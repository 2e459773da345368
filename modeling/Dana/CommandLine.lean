import Dana.Format.Program
import Dana.Json.Parser
import Dana.Library
import Dana.Report

/-!
# The command line

`check FILE [--json]` checks the program in a file, `builtins [--json]` lists
the standard library, `--version` names the program. `respond` gives what is
printed and the exit code, as a function of the arguments and of the files.

Left out are help and causes. There are no help pages, so `--help`, `-h` and `help`
are a usage failure like any arguments that are not understood, with its exit code.
A failure to read or to decode a file names the file, and not what went wrong with it.
-/

namespace Dana

namespace Builtin

def toJson (b : Builtin) : Json :=
  .obj [("name", .str b.name),
    ("params", .arr (b.params.map fun (x, ty) => .arr [.str x, ty.toJson])),
    ("ret_type", .ofOption Ty.toJson b.result)]

end Builtin

/-! ## Arguments -/

inductive Command
  | check (file : String) (json : Bool)
  | builtins (json : Bool)
  | version
deriving DecidableEq, Repr

namespace Command

/-- What the arguments of a subcommand have said so far. -/
structure Options where
  file : Option String
  json : Bool

/-- Takes an argument as the file, which there is one of and has a name. -/
def Options.withFile (o : Options) (arg : String) : Option Options :=
  if arg = "" ∨ o.file.isSome then none else some { o with file := some arg }

/-- Whether an argument has the look of an option. A dash alone has not. -/
def isOption (arg : String) : Bool :=
  match arg.toList with
  | '-' :: _ :: _ => true
  | _ => false

/-- Arguments after `--`, none of which is an option. -/
def readFiles (o : Options) : List String → Option Options
  | [] => some o
  | arg :: args => do
    let o ← o.withFile arg
    readFiles o args

def readOptions (o : Options) : List String → Option Options
  | [] => some o
  | arg :: args =>
    if arg = "--" then readFiles o args
    else if arg = "--json" then
      if o.json then none else readOptions { o with json := true } args
    else if isOption arg then none
    else do
      let o ← o.withFile arg
      readOptions o args

/-- Whether an argument asks for the version: `--version`, or short options of
which the first is `V`. -/
def asksVersion (arg : String) : Bool :=
  arg = "--version" ||
    match arg.toList with
    | '-' :: 'V' :: _ => true
    | _ => false

/-- The command that the arguments stand for. None stands for a help page. -/
def parse? : List String → Option Command
  | [] => none
  | arg :: args =>
    if arg = "check" then do
      let o ← readOptions ⟨none, false⟩ args
      let file ← o.file
      return .check file o.json
    else if arg = "builtins" then do
      let o ← readOptions ⟨none, false⟩ args
      if o.file.isSome then none else return .builtins o.json
    else if asksVersion arg then some .version
    else none

/-- The file a command reads. -/
def file? : Command → Option String
  | .check file _ => some file
  | _ => none

end Command

/-! ## Responses -/

structure Response where
  exit : UInt32
  stdout : String
  stderr : String
deriving DecidableEq, Repr

/-- Why there is nothing to respond. -/
inductive Failure
  | usage
  | unreadable (file : String)
  | undecodable (file : String)
deriving DecidableEq, Repr

namespace Failure

def exit : UInt32 := 2

/-- What is printed of a failure, without the cause. -/
def message : Failure → String
  | .usage => "Usage: danac check FILE [--json]\n       danac builtins [--json]\n       danac --version"
  | .unreadable file => "Error: reading " ++ file
  | .undecodable file => "Error: decoding AST from " ++ file

end Failure

/-- How deep arrays and objects may nest in a file. -/
def nestingLimit : Nat := 127

/-- The program that a text holds. -/
def Program.ofText? (text : String) : Option Program := do
  let j ← Json.parse? text
  (Program.ofJson nestingLimit j).toOption

/-- The response to a finished check of `file`. -/
def Response.ofResult (file : String) (json : Bool) (result : Except Fault Unit) : Response :=
  let exit := match result with
    | .ok () => 0
    | .error _ => 1
  if json then ⟨exit, (Report.ofResult result (some file)).text ++ "\n", ""⟩
  else
    match result with
    | .ok () => ⟨exit, file ++ ": semantic check passed\n", ""⟩
    | .error f =>
      ⟨exit, "", file ++ ":" ++ f.line.toNat.repr ++ ": semantic error: " ++ f.message ++ "\n"⟩

def Response.builtins (json : Bool) : Response :=
  if json then ⟨0, (Json.arr (Builtin.all.map Builtin.toJson)).render ++ "\n", ""⟩
  else ⟨0, String.join (Builtin.all.map fun b => b.header.text ++ "\n"), ""⟩

/-- Responds to a command; `read` gives the text of a file that can be read. -/
def Command.respond (read : String → Option String) : Command → Except Failure Response
  | .check file json =>
    match read file with
    | none => .error (.unreadable file)
    | some text =>
      match Program.ofText? text with
      | none => .error (.undecodable file)
      | some p => .ok (.ofResult file json (Dana.check p))
  | .builtins json => .ok (.builtins json)
  | .version => .ok ⟨0, "danac 0.1.0\n", ""⟩

def respond (read : String → Option String) (args : List String) : Except Failure Response :=
  match Command.parse? args with
  | some c => c.respond read
  | none => .error .usage

/-- The exit code of a run, whether it came to a response or not. -/
def exitCode : Except Failure Response → UInt32
  | .ok r => r.exit
  | .error _ => Failure.exit

end Dana
