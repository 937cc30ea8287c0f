/-
  Matrix rows.

  A row starts on a fresh line and goes on over as many lines as it needs, but
  nothing may follow it on its last line.  A row that starts with something that
  does not look like a number means that the matrix ended early.

  Main definitions: `Reader.readRow`, `Reader.readRows`.
-/
import StaticControl.Exchange.Reader

set_option autoImplicit false

namespace StaticControl

/-- Whether a word is a digit after any number of signs, whatever follows. -/
def Text.looksNumeric (t : Text) : Bool :=
  (t.dropWhile fun c => c == '-' || c == '+').head?.any Char.isDigit

/-- Why the words of a line do not go on a row. -/
inductive CellsFault where
  /-- there are more words than cells needed -/
  | tooMany
  /-- the row starts with something that does not look like a number -/
  | notARow
  /-- a word is no numeral of the precision -/
  | malformed (word : Text)
  deriving DecidableEq, Repr

/-- The cells that the words of a line spell, of which at most `need` are
needed; `fresh` tells that the row starts here. -/
def Row.ofWords (p : Precision) : Nat → Bool → List Text → Except CellsFault Row
  | _, _, [] => .ok []
  | 0, _, _ :: _ => .error .tooMany
  | need + 1, fresh, word :: rest =>
    match Coefficient.parse? p word with
    | some c => do return c :: (← ofWords p need false rest)
    | none => if fresh && !Text.looksNumeric word then .error .notARow else .error (.malformed word)

namespace Reader

/-- The cells of one line, as a step. -/
def takeCells (columns rowsLeft need : Nat) (line : Line) : Read Row := do
  let p := (← get).precision
  match Row.ofWords p need (need == columns) line.tokens with
  | .ok cells =>
    note (.cells line)
    return cells
  | .error .tooMany => failAt (.rowTooLong columns) line
  | .error .notARow => failAt (.bodyEndedInRows rowsLeft) line
  | .error (.malformed word) =>
    throw (.format ⟨.malformedNumber p, none, some line.number, some word⟩)

/-- `need` more cells of a row, from at most as many lines as there is fuel.
Fuel for `need` lines is enough, for every content line has a word. -/
def readCells (columns rowsLeft : Nat) : Nat → Nat → Read Row
  | _, 0 => return []
  | 0, _ + 1 => do
    let _ ← next
    failHere (.inputEndedInRows rowsLeft)
  | fuel + 1, need + 1 => do
    match ← next with
    | none => failHere (.inputEndedInRows rowsLeft)
    | some line =>
      let cells ← takeCells columns rowsLeft (need + 1) line
      let more ← readCells columns rowsLeft fuel (need + 1 - cells.length)
      return cells ++ more

/-- One row; `rowsLeft` counts it and those after it. -/
def readRow (columns rowsLeft : Nat) : Read Row :=
  readCells columns rowsLeft columns columns

/-- The given number of rows. -/
def readRows (columns : Nat) : Nat → Read (List Row)
  | 0 => return []
  | left + 1 => do
    let row ← readRow columns (left + 1)
    let more ← readRows columns left
    return row :: more

end Reader

end StaticControl
