/-
  Lists of names, as they stand in blocks of text.

  The names of a text are the words of all its lines but those that start with
  `#`; they are written on one line with single blanks between them.
-/
import StaticControl.Text.Lines

set_option autoImplicit false

namespace StaticControl.Text

/-- Whether the line starts with `#` after its leading blanks. -/
def isComment (line : Text) : Bool := (trimLeft line).head? == some '#'

/-- Whether the line holds nothing but blanks. -/
def isBlankLine (line : Text) : Bool := line.all isBlank

/-- The names that a text lists. -/
def names (t : Text) : List Text :=
  ((lines t).filter fun line => !isComment line).flatMap words

theorem isBlankLine_nil : isBlankLine [] = true := rfl

end StaticControl.Text
