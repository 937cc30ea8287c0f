/-
  The log of a run.

  A record has a level, the part of the program that it comes from, and a
  message.  A log shows the records up to its level, each as a line that starts
  with the level and the part in brackets.  Of each line only what is visible on
  a terminal is written.  A command to the terminal that nothing ends takes the
  end of its line along, and then what follows is written on the same line.

  Main definitions: `Log.Record`, `Log.text`, `Log.warnings`, `Log.others`.
-/
import StaticControl.Exchange.Note
import StaticControl.Text.Lines
import StaticControl.Text.Search
import StaticControl.Text.Terminal

set_option autoImplicit false

namespace StaticControl.Log

/-! ## Records -/

/-- How much a record matters. -/
inductive Level where
  | warning
  | info
  | debug
  | trace
  deriving DecidableEq, Repr, Inhabited

namespace Level

/-- The level in five characters. -/
def word : Level → String
  | warning => "WARN "
  | info => "INFO "
  | debug => "DEBUG"
  | trace => "TRACE"

/-- The position of a level: what matters most comes first. -/
def rank : Level → Nat
  | warning => 1
  | info => 2
  | debug => 3
  | trace => 4

/-- All levels. -/
def all : List Level := [warning, info, debug, trace]

end Level

/-- The parts of the program that write records. -/
inductive Origin where
  | command
  | registry
  | reader
  deriving DecidableEq, Repr, Inhabited

/-- The part as lines of the log name it. -/
def Origin.name : Origin → String
  | .command => "polyscop"
  | .registry => "polyscop::extension::registry"
  | .reader => "polyscop::codec::reader"

/-- A record. -/
structure Record where
  level : Level
  origin : Origin
  message : Text
  deriving DecidableEq, Repr, Inhabited

namespace Record

/-- The record of a note.  Lines of cells are not recorded. -/
def ofNote : Note → Option Record
  | .unregistered uri =>
    some ⟨.warning, .registry,
      "no interface registered for <".toList ++ uri ++ ">, keeping its text verbatim".toList⟩
  | .registered uri =>
    some ⟨.debug, .registry, "parsing <".toList ++ uri ++ "> extension".toList⟩
  | .shortHeader _ _ e =>
    some ⟨.debug, .reader, String.toList
      (s!"matrix header {e.rows} {e.layout.columns} read as {e.layout.outputs} out, " ++
        s!"{e.layout.inputs} in, {e.layout.parameters} param")⟩
  | .cells _ => none
  | .relation kind e =>
    some ⟨.trace, .reader, String.toList s!"read {kind.keyword} relation {e.describe}"⟩
  | .statement index relations =>
    some ⟨.trace, .reader, String.toList s!"statement {index + 1}: {relations} relation(s)"⟩
  | .program parameters statements extensions =>
    some ⟨.debug, .reader, String.toList
      (s!"read scop: {parameters} parameter(s), {statements} statement(s), " ++
        s!"{extensions} extension(s)")⟩
  | .programs count => some ⟨.debug, .reader, String.toList s!"read {count} scop(s)"⟩

/-- The line of a record, with its end. -/
def line (r : Record) : Text :=
  String.toList s!"[{r.level.word} {r.origin.name}] " ++ r.message ++ ['\n']

end Record

/-! ## Writing a log -/

/-- Whether a log with a limit shows a level; without a limit it shows none. -/
def shows (limit : Option Level) (level : Level) : Bool :=
  match limit with
  | none => false
  | some l => level.rank ≤ l.rank

/-- The log of some records. -/
def text (limit : Option Level) (records : List Record) : Text :=
  (records.filter fun r => shows limit r.level).flatMap fun r => Text.visible r.line

/-! ## Telling a log from what follows it -/

/-- The message on a line of the log with the given level. -/
def messageOf? (level : Level) (line : Text) : Option Text := do
  let rest ← Text.after? (String.toList s!"[{level.word} ") line
  let (_, message) ← Text.cutAt? [']', ' '] rest
  return message

/-- The messages of the warnings in a text. -/
def warnings (t : Text) : List Text := (Text.lines t).filterMap (messageOf? .warning)

/-- The lines of a text that are no lines of a log. -/
def others (t : Text) : List Text :=
  (Text.lines t).filter fun line => Level.all.all fun level => (messageOf? level line).isNone

theorem text_nil (limit : Option Level) : text limit [] = [] := rfl

/-- Without a limit nothing is written. -/
theorem text_none (records : List Record) : text none records = [] := by
  simp [text, shows]

end StaticControl.Log
