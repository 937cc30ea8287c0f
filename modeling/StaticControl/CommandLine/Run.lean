/-
  Running a command.

  A run reads the input file, prints what it holds, and writes the text to the
  output file or the standard output.  It may check that the printed text reads
  back and prints the same, and may report beta vectors in place of the text.
  Nothing is written unless every step succeeded.

  A failure is a chain of explanations, from the outermost to the cause.  What
  does not end a run goes to its log.  A run can also be stopped, when it asks for
  a list that is longer than a list can be: then the process ends where it is,
  with a code of its own, and nothing explains what it was about.  Of what a
  process says that is stopped, only the cause is kept.

  Main definitions: `Ending`, `Task`, `CommandLine.produce`, `CommandLine.run`.
-/
import StaticControl.Beta.Queries
import StaticControl.CommandLine.Log
import StaticControl.CommandLine.Options
import StaticControl.Exchange.Document

set_option autoImplicit false

namespace StaticControl

/-- Why a run failed: explanations from the outermost to the cause. -/
abbrev Failure : Type := List String

/-- How a run ends that does not come to its last step. -/
inductive Ending where
  | failed (failure : Failure)
  /-- the process was stopped where more elements were announced than a list can hold -/
  | stopped (announced : Nat)
  deriving DecidableEq, Repr

/-- A step of a run, which collects the records of its log. -/
abbrev Task (α : Type) : Type := EStateM Ending (List Log.Record) α

/-- The files that a run sees: what reading a path yields, and whether a path
can be written. -/
structure Files where
  read : Text → Except InputFault Text
  write : Text → Except InputFault Unit

/-- What a run leaves behind. -/
structure Outcome where
  code : Nat
  stdout : Text
  /-- the report of a failure, or the cause of a stop -/
  stderr : String
  /-- the log, which is written in front of a report -/
  log : Text
  /-- the path and the content of the file that was written -/
  written : Option (Text × Text)
  deriving DecidableEq

namespace Failure

/-- The explanation that a fault is the cause of: its message with and without
the family. -/
def ofFault (fault : Fault) : Failure := [fault.message, fault.detail]

/-- The report of a failure: the outermost explanation, and the others indented
below it, numbered if there are several. -/
def report (f : Failure) : String :=
  match f with
  | [] => "Error: "
  | [message] => s!"Error: {message}"
  | [message, cause] => s!"Error: {message}\n\nCaused by:\n    {cause}"
  | message :: causes =>
    let numbered := causes.zipIdx.map fun (cause, n) => s!"\n    {n}: {cause}"
    s!"Error: {message}\n\nCaused by:{String.join numbered}"

end Failure

namespace Ending

/-- How a fault ends a run. -/
def ofFault : Fault → Ending
  | .capacity announced => .stopped announced
  | fault => .failed (.ofFault fault)

/-- The ending with one more explanation; a stop has none. -/
def within (explanation : String) : Ending → Ending
  | failed failure => failed (explanation :: failure)
  | stopped announced => stopped announced

end Ending

namespace Task

/-- A failure of the run. -/
def fail {α : Type} (f : Failure) : Task α := throw (.failed f)

/-- One more record of the command itself. -/
def log (level : Log.Level) (message : String) : Task Unit :=
  modify fun records => records ++ [⟨level, .command, message.toList⟩]

/-- A step whose failures get one more explanation. -/
def within {α : Type} (explanation : String) (step : Task α) : Task α := fun records =>
  match step records with
  | .ok a r => .ok a r
  | .error ending r => .error (ending.within explanation) r

/-- A result that may fail, as a step. -/
def ofExcept {ε α : Type} (explain : ε → Ending) (result : Except ε α) : Task α :=
  match result with
  | .ok a => pure a
  | .error e => throw (explain e)

/-- A checked result as a step. -/
def ofChecked {α : Type} (result : Checked α) : Task α :=
  ofExcept (fun f => Ending.ofFault (.invariant f)) result

/-- A reading as a step, which takes its notes into the log. -/
def ofReading {α : Type} (reading : Reading α) : Task α := do
  modify fun records => records ++ reading.notes.filterMap Log.Record.ofNote
  ofExcept Ending.ofFault reading.result

end Task

namespace CommandLine

/-- The settings of a run: the environment may name a precision, and the options
override it. -/
def settings (o : Options) (environment : Option Text) : Task Settings := do
  let s ← Task.within "Invalid environment configuration"
    (Task.ofExcept (fun f => Ending.ofFault (.config f)) (Settings.ofEnvironment environment))
  return ⟨o.precision <|> s.precision, o.comments, o.parameters <|> s.legacyParameters⟩

/-- A path as messages show it. -/
def shown (path : Text) : String := String.ofList (Text.quote path)

/-! ## Stability -/

/-- The number of the first line in which two texts differ, counted from
`number`. -/
def differenceFrom (number : Nat) : List Text → List Text → Nat
  | a :: as, b :: bs => if a = b then differenceFrom (number + 1) as bs else number
  | _, _ => number

/-- The number of the first line in which two texts differ, counted from 1. -/
def firstDifference (printed again : Text) : Nat :=
  differenceFrom 1 (Text.lines printed) (Text.lines again)

/-- The text that was printed again is the one that was printed first. -/
def compareTexts (printed again : Text) : Task Unit :=
  if again = printed then pure ()
  else Task.fail
    [s!"Printed output is not stable: first difference at line {firstDifference printed again}"]

/-- The record of a text that printed the same. -/
def logStable : Task Unit := Task.log .info "Print/read round trip is stable"

/-- The explanation of a failure while the printed text is read. -/
def rereading : String := "Failed to re-read printed output"

/-! ## Modes -/

/-- The text of the one disjunction of the input. -/
def reprintDisjunction (o : Options) (s : Settings) (source : Text) : Task Text := do
  Task.log .info "Reading relation..."
  let d ← Task.ofReading (Document.disjunction source s .double)
  Task.log .info s!"Read a {d.parts.length}-part relation union"
  let printed ← Task.ofChecked (Printer.disjunction s.comments d)
  if o.check then
    let again ← Task.within rereading (Task.ofReading (Document.disjunction printed s .double))
    compareTexts printed (← Task.ofChecked (Printer.disjunction s.comments again))
    logStable
  return printed

/-- The printed text reads back and prints the same. -/
def checkStability (s : Settings) (printed : Text) : Task Unit := do
  let again ← Task.within rereading
    (Task.ofReading (Document.programs printed .builtin s .double))
  compareTexts printed (← Task.ofChecked (Printer.programs s.comments again))
  logStable

/-- The line of a report for one part of a schedule. -/
def betaLine (part : Program.ScatteringPart) : Task Text := do
  let beta ← Task.within s!"Failed to extract beta of statement {part.statement + 1}"
    (Task.ofChecked part.relation.beta)
  return 'S' :: Text.decimal (part.statement + 1) ++ '.' :: Text.decimal (part.part + 1)
    ++ ' ' :: beta.toText

/-- The lines of a report for one program; `title` stands above them if there is
one.  Parts that share a beta vector are warned of. -/
def betaLines (title : Option Text) (p : Program) : Task (List Text) := do
  let ls ← p.scatteringParts.mapM betaLine
  match p.checkUniqueBetas with
  | .ok _ => pure ()
  | .error f => Task.log .warning (Fault.message (.invariant f))
  return title.toList ++ ls

/-- The beta vectors of all programs; each has a title if there are several. -/
def betaReport (ps : List Program) : Task Text := do
  let title (k : Nat) : Option Text :=
    if 1 < ps.length then some ("# Scop ".toList ++ Text.decimal (k + 1)) else none
  let blocks ← ps.zipIdx.mapM fun (p, k) => betaLines (title k) p
  return Text.unlines blocks.flatten

/-- The text for the programs of the input. -/
def reprintPrograms (o : Options) (s : Settings) (source : Text) : Task Text := do
  Task.log .info "Reading..."
  let ps ← Task.within s!"Failed to read {shown o.input}"
    (Task.ofReading (Document.programs source .builtin s .double))
  Task.log .info s!"Read {ps.length} scop(s)"
  let printed ← Task.within "Failed to print scops"
    (Task.ofChecked (Printer.programs s.comments ps))
  if o.check then checkStability s printed
  if o.betas then betaReport ps else return printed

/-! ## Runs -/

/-- The text that a run writes. -/
def produce (o : Options) (environment : Option Text) (files : Files) : Task Text := do
  let s ← settings o environment
  let source ← Task.within s!"Failed to read input file: {shown o.input}"
    (Task.ofExcept (fun f => .failed [f.message]) (files.read o.input))
  if o.relation then
    Task.within s!"Failed to rewrite {shown o.input}" (reprintDisjunction o s source)
  else reprintPrograms o s source

/-- The text to where it belongs: a file that is written, or the standard output. -/
def deliver (o : Options) (files : Files) (text : Text) : Task (Text × Option (Text × Text)) := do
  match o.output with
  | none => return (text, none)
  | some path =>
    Task.within s!"Failed to write output file: {shown path}"
      (Task.ofExcept (fun f => .failed [f.message]) (files.write path))
    return ([], some (path, text))

/-- The level up to which a run shows its log. -/
def logLimit (o : Options) : Option Log.Level :=
  if o.quiet then none
  else match o.verbosity with
    | 0 => some .warning
    | 1 => some .info
    | 2 => some .debug
    | _ => some .trace

/-- The exit code of a process that was stopped. -/
def stopCode : Nat := 101

/-- A run. -/
def run (o : Options) (environment : Option Text) (files : Files) : Outcome :=
  let step : Task (Text × Option (Text × Text)) := do
    deliver o files (← produce o environment files)
  let log (records : List Log.Record) : Text := Log.text (logLimit o) records
  match step [] with
  | .ok (stdout, written) records => ⟨0, stdout, "", log records, written⟩
  | .error (.failed failure) records => ⟨1, [], failure.report, log records, none⟩
  | .error (.stopped announced) records =>
    ⟨stopCode, [], (Fault.capacity announced).message, log records, none⟩

end CommandLine

end StaticControl
