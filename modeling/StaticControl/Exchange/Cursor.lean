/-
  A cursor over the lines of a text.

  A content line is a line that is neither blank nor a comment, that is, whose
  first character that is not blank is not `#`.  The cursor counts the lines
  that it has passed and keeps those that remain; looking at the next content
  line passes the lines in front of it.

  Main definitions: `Line`, `Cursor`, and the steps `peek`, `next`, `nextRaw`,
  `expectLine` and `expectCount`.
-/
import StaticControl.Fault
import StaticControl.Text.Names

set_option autoImplicit false

namespace StaticControl

/-- The text before the first `#`. -/
def Text.beforeComment (t : Text) : Text := t.takeWhile (· ≠ '#')

/-- A line with its number, counted from 1. -/
structure Line where
  number : Nat
  text : Text
  deriving DecidableEq, Repr, Inhabited

namespace Line

/-- The text in front of a comment. -/
def data (l : Line) : Text := Text.beforeComment l.text

/-- The words in front of a comment. -/
def tokens (l : Line) : List Text := Text.words l.data

/-- The text in front of a comment, without blanks at its ends. -/
def keyword (l : Line) : Text := Text.trim l.data

/-- The 64-bit integer that a text spells. -/
def integer64? (t : Text) : Option Int :=
  (Text.integer? t).filter fun v => decide (Precision.double.Fits v)

/-- The integer that is alone in front of a comment. -/
def singleInteger? (l : Line) : Option Int :=
  match l.tokens with
  | [t] => integer64? t
  | _ => none

/-- The count that is alone in front of a comment. -/
def count? (l : Line) : Option Nat :=
  match l.singleInteger? with
  | some v => if 0 ≤ v then some v.toNat else none
  | none => none

end Line

/-- The lines that remain, and how many were passed. -/
structure Cursor where
  passed : Nat
  rest : List Text
  deriving DecidableEq, Repr, Inhabited

namespace Cursor

/-- A cursor in front of the first line of a text. -/
def ofText (t : Text) : Cursor := ⟨0, Text.lines t⟩

/-- The number of the next line. -/
def lineNumber (c : Cursor) : Nat := c.passed + 1

/-- Whether a line has content. -/
def isContent (line : Text) : Bool := !Text.isBlankLine line && !Text.isComment line

/-- The lines after those without content, counted on from `passed`. -/
def skipFrom (passed : Nat) : List Text → Cursor
  | [] => ⟨passed, []⟩
  | line :: rest => if isContent line then ⟨passed, line :: rest⟩ else skipFrom (passed + 1) rest

/-- The cursor in front of the next content line. -/
def skip (c : Cursor) : Cursor := skipFrom c.passed c.rest

/-- The next line as it stands. -/
def headRaw? (c : Cursor) : Option Line :=
  match c.rest with
  | [] => none
  | line :: _ => some ⟨c.passed + 1, line⟩

/-- The cursor behind the next line. -/
def advance (c : Cursor) : Cursor :=
  match c.rest with
  | [] => c
  | _ :: rest => ⟨c.passed + 1, rest⟩

/-- The next content line, trimmed. -/
def content? (c : Cursor) : Option Line :=
  (c.skip.headRaw?).map fun l => { l with text := Text.trim l.text }

/-! ## Steps -/

/-- A step of a cursor: what it yields or why it fails, and the cursor after it. -/
abbrev Step (α : Type) : Type := EStateM Fault Cursor α

/-- The next content line, which is not passed. -/
def peek : Step (Option Line) := fun c => .ok c.content? c.skip

/-- Whether no content line remains. -/
def atEnd : Step Bool := return (← peek).isNone

/-- The next content line, which is passed. -/
def next : Step (Option Line) := fun c => .ok c.content? c.skip.advance

/-- The next line as it stands, which is passed. -/
def nextRaw : Step (Option Line) := fun c => .ok c.headRaw? c.advance

/-- The next content line; `what` names it if there is none. -/
def expectLine (what : Text) : Step Line := do
  let number := (← get).lineNumber
  match ← next with
  | some line => return line
  | none =>
    throw (.format { FormatFault.ofCause (.endOfInput what) with line := some number })

/-- The count on the next content line; `what` names it if there is none. -/
def expectCount (what : Text) : Step Nat := do
  let line ← expectLine what
  match line.count? with
  | some n => return n
  | none =>
    throw (.format
      { FormatFault.ofCause (.required what) with line := some line.number, found := some line.text })

/-! ## Passing lines -/

theorem skipFrom_passed (passed : Nat) (ls : List Text) :
    (skipFrom passed ls).passed + (skipFrom passed ls).rest.length = passed + ls.length := by
  induction ls generalizing passed with
  | nil => simp [skipFrom]
  | cons line rest ih =>
    simp only [skipFrom]
    split
    · simp
    · rw [ih]
      simp
      omega

/-- Skipping neither gains nor loses lines. -/
theorem skip_passed (c : Cursor) :
    c.skip.passed + c.skip.rest.length = c.passed + c.rest.length :=
  skipFrom_passed c.passed c.rest

/-- Advancing neither gains nor loses lines. -/
theorem advance_passed (c : Cursor) :
    c.advance.passed + c.advance.rest.length = c.passed + c.rest.length := by
  unfold advance
  split
  · rfl
  · next h => simp [h]; omega

end Cursor

end StaticControl
