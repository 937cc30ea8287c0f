/-
  The state of a reader of exchange text, and its basic steps.

  A reader holds a cursor, the registry and the precision to read with, the
  number of parameters that short relation headers assume, the part of a
  disjunction that is being read, and what it noted.  A step may fail, and the
  reader can go on from where it failed.
-/
import StaticControl.Exchange.Note
import StaticControl.Extension.Registry
import StaticControl.Settings

set_option autoImplicit false

namespace StaticControl

/-- A reader of exchange text. -/
structure Reader where
  cursor : Cursor
  registry : Registry
  precision : Precision
  /-- the number of parameters that short headers assume -/
  hint : Option Nat
  /-- the part of a disjunction that is being read -/
  position : Option PartPosition
  /-- what was noted, the latest first -/
  notes : List Note
  deriving DecidableEq

/-- A step of a reader: what it yields or why it fails, and the reader after it. -/
abbrev Read (α : Type) : Type := EStateM Fault Reader α

namespace Reader

/-- A reader in front of a text.  Without a precision in the settings it reads
at `default`. -/
def ofText (t : Text) (registry : Registry) (settings : Settings) (default : Precision) : Reader where
  cursor := .ofText t
  registry := registry
  precision := settings.precision.getD default
  hint := settings.legacyParameters
  position := none
  notes := []

/-- What a step yields or why it fails. -/
def run {α : Type} (step : Read α) (r : Reader) : Except Fault α :=
  match step r with
  | .ok a _ => .ok a
  | .error e _ => .error e

/-- The reader after a step. -/
def after {α : Type} (step : Read α) (r : Reader) : Reader :=
  match step r with
  | .ok _ r => r
  | .error _ r => r

/-! ## Steps -/

/-- A step of the cursor. -/
def onCursor {α : Type} (step : Cursor.Step α) : Read α := fun r =>
  match step r.cursor with
  | .ok a c => .ok a { r with cursor := c }
  | .error e c => .error e { r with cursor := c }

/-- The next content line, which is not passed. -/
def peek : Read (Option Line) := onCursor Cursor.peek

/-- The next content line, which is passed. -/
def next : Read (Option Line) := onCursor Cursor.next

/-- The next content line; `what` names it if there is none. -/
def expectLine (what : Text) : Read Line := onCursor (Cursor.expectLine what)

/-- The count on the next content line; `what` names it if there is none. -/
def expectCount (what : Text) : Read Nat := onCursor (Cursor.expectCount what)

/-- Whether no content line remains. -/
def atEnd : Read Bool := onCursor Cursor.atEnd

/-- A failure on a line, which is shown, in the part that is being read. -/
def failAt {α : Type} (cause : FormatCause) (line : Line) : Read α := do
  throw (.format ⟨cause, (← get).position, some line.number, some line.text⟩)

/-- A failure in front of the next line, in the part that is being read. -/
def failHere {α : Type} (cause : FormatCause) : Read α := do
  let r ← get
  throw (.format ⟨cause, r.position, some r.cursor.lineNumber, none⟩)

/-- A failure in front of the next line, outside all parts. -/
def failOutside {α : Type} (cause : FormatCause) : Read α := do
  let r ← get
  throw (.format { FormatFault.ofCause cause with line := some r.cursor.lineNumber })

/-- A checked result as a step. -/
def ofChecked {α : Type} (result : Checked α) : Read α :=
  match result with
  | .ok a => pure a
  | .error fault => throw (.invariant fault)

/-- The part that is being read from now on. -/
def setPosition (position : Option PartPosition) : Read Unit :=
  modify fun r => { r with position := position }

/-- One more note. -/
def note (n : Note) : Read Unit := modify fun r => { r with notes := n :: r.notes }

/-- A step during which short headers assume another number of parameters. -/
def withHint {α : Type} (hint : Option Nat) (step : Read α) : Read α := fun r =>
  match step { r with hint := hint } with
  | .ok a s => .ok a { s with hint := r.hint }
  | .error e s => .error e { s with hint := r.hint }

/-- The number of lines that remain. -/
def linesLeft : Read Nat := return (← get).cursor.rest.length

/-- No content line remains. -/
def finish : Read Unit := do
  match ← peek with
  | some line => failAt .trailingContent line
  | none => pure ()

end Reader

end StaticControl
