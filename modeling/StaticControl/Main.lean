/-
  The command line program.

  Everything it decides is in `StaticControl.CommandLine.Run`; here the arguments,
  the environment and the files are those of the process.
-/
import StaticControl.CommandLine.Run

set_option autoImplicit false

namespace StaticControl.CommandLine

/-- The environment variable that names the default precision. -/
def precisionVariable : String := "SCOP_PRECISION"

/-- What the usage looks like. -/
def usage : String :=
  "usage: [-o FILE] [-p PRECISION] [--no-comments] [--check] " ++
    "[(--relation | --betas) [--parameters N]] [-v] [-q] FILE"

/-- The fault that a system error stands for. -/
def inputFault : IO.Error → InputFault
  | .noFileOrDirectory .. => .notFound
  | .permissionDenied _ code answer => .other s!"{answer} (os error {code})"
  | .inappropriateType _ code answer => .other s!"{answer} (os error {code})"
  | .resourceExhausted _ code answer => .other s!"{answer} (os error {code})"
  | e => .other (toString e)

/-- The text of a file. -/
def readText (path : Text) : IO (Except InputFault Text) := do
  try
    return Document.decode (some (← IO.FS.readBinFile (String.ofList path)))
  catch e => return .error (inputFault e)

/-- A text put into a file, or why it cannot be. -/
def writeText (path text : Text) : IO (Except InputFault Unit) := do
  try
    IO.FS.writeFile (String.ofList path) (String.ofList text)
    return .ok ()
  catch e => return .error (inputFault e)

/-- What a run leaves behind, with its file written.  A run that cannot write its
file is a run on files that cannot be written. -/
def runAndWrite (options : Options) (environment : Option Text) : IO Outcome := do
  let source ← readText options.input
  let planned := run options environment ⟨fun _ => source, fun _ => .ok ()⟩
  match planned.written with
  | none => return planned
  | some (path, text) =>
    match ← writeText path text with
    | .ok _ => return planned
    | .error fault => return run options environment ⟨fun _ => source, fun _ => .error fault⟩

end StaticControl.CommandLine

open StaticControl in
/-- Run the command that the arguments ask for. -/
def main (arguments : List String) : IO UInt32 := do
  match Options.ofArguments? (arguments.map String.toList) with
  | none =>
    IO.eprintln CommandLine.usage
    return 2
  | some options =>
    let environment := (← IO.getEnv CommandLine.precisionVariable).map String.toList
    let outcome ← CommandLine.runAndWrite options environment
    IO.eprint (String.ofList outcome.log)
    IO.print (String.ofList outcome.stdout)
    if outcome.stderr ≠ "" then IO.eprintln outcome.stderr
    return UInt32.ofNat outcome.code
