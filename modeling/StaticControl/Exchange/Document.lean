/-
  Whole texts in the exchange format.

  A text holds programs, exactly one program, or exactly one disjunction.  A
  reading yields what the text holds or why it cannot be read, and what was noted
  on the way.
-/
import StaticControl.Exchange.Printer

set_option autoImplicit false

namespace StaticControl

/-- The outcome of reading a text. -/
structure Reading (α : Type) where
  result : Except Fault α
  /-- what was noted, in order -/
  notes : List Note

namespace Document

/-- What a step makes of a text. -/
def read {α : Type} (step : Read α) (r : Reader) : Reading α :=
  match step r with
  | .ok a s => ⟨.ok a, s.notes.reverse⟩
  | .error fault s => ⟨.error fault, s.notes.reverse⟩

/-- A step after which the text has no more content. -/
def exactly {α : Type} (step : Read α) : Read α := do
  let a ← step
  Reader.finish
  return a

/-- The programs of a text. -/
def programs (t : Text) (registry : Registry) (s : Settings) (default : Precision) :
    Reading (List Program) :=
  read Reader.readPrograms (.ofText t registry s default)

/-- The one program of a text. -/
def program (t : Text) (registry : Registry) (s : Settings) (default : Precision) :
    Reading Program :=
  read (exactly Reader.readProgram) (.ofText t registry s default)

/-- The one disjunction of a text. -/
def disjunction (t : Text) (s : Settings) (default : Precision) : Reading Disjunction :=
  read (exactly Reader.readDisjunction) (.ofText t .builtin s default)

/-- The text of a file; `none` stands for a file that does not exist. -/
def decode (content : Option ByteArray) : Except InputFault Text :=
  match content with
  | none => .error .notFound
  | some bytes =>
    match String.fromUTF8? bytes with
    | some s => .ok s.toList
    | none => .error .invalidEncoding

/-- The programs of a file. -/
def programsOfFile (content : Option ByteArray) (registry : Registry) (s : Settings)
    (default : Precision) : Reading (List Program) :=
  match decode content with
  | .ok t => programs t registry s default
  | .error fault => ⟨.error (.input fault), []⟩

end Document

end StaticControl
